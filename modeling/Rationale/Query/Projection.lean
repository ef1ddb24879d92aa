/-
  Rationale — the queries made about the candidates of a page.

  Each of the four queries binds its own arguments first and then embeds the
  candidate query behind them.  Three of them return justifications joined
  with their bases, one row for each atom of a compound (`justificationRows`):
  the page itself, all justifications that it targets directly or through
  others, and all that counter it.  The fourth returns propositions.

  What they return from a store is in `Rationale.Store.Joined`.
-/
import Rationale.Query.Page

namespace Rationale.Query

open Sql

/-- The columns of a justification with its basis. -/
def justificationColumns : String :=
"
         j.justification_id, j.root_target_type, j.root_target_id, j.root_polarity,
         j.target_type, j.target_id, j.basis_type, j.basis_id, j.polarity,
         j.creator_user_id, j.created,
         pc.proposition_compound_id AS pc_id,
         pc.creator_user_id         AS pc_creator_user_id,
         pc.created                 AS pc_created,
         pca.order_position         AS pca_order_position,
         pcap.proposition_id        AS pcap_id,
         pcap.text                  AS pcap_text,
         pcap.creator_user_id       AS pcap_creator_user_id,
         pcap.created               AS pcap_created,
         wq.writ_quote_id           AS wq_id,
         wq.quote_text              AS wq_quote_text,
         wq.creator_user_id         AS wq_creator_user_id,
         wq.created                 AS wq_created,
         w.writ_id                  AS wq_writ_id,
         w.title                    AS wq_writ_title,
         jbc.justification_basis_compound_id    AS jbc_id,
         jbc.creator_user_id                    AS jbc_creator_user_id,
         jbc.created                            AS jbc_created,
         jbca.justification_basis_compound_atom_id AS jbca_id,
         jbca.entity_type                       AS jbca_entity_type,
         jbca.entity_id                         AS jbca_entity_id,
         jbca.order_position                    AS jbca_order_position,
         jbcap.proposition_id       AS jbcap_id,
         jbcap.text                 AS jbcap_text,
         jbcap.creator_user_id      AS jbcap_creator_user_id,
         jbcap.created              AS jbcap_created,
         sep.source_excerpt_paraphrase_id AS sep_id,
         sep.source_excerpt_type          AS sep_source_excerpt_type,
         sep.source_excerpt_id            AS sep_source_excerpt_id,
         sep.paraphrasing_proposition_id  AS sep_paraphrasing_proposition_id,
         sepp.proposition_id        AS sepp_id,
         sepp.text                  AS sepp_text,
         sepp.creator_user_id       AS sepp_creator_user_id,
         sepp.created               AS sepp_created,
         sepwq.writ_quote_id        AS sepwq_id,
         sepwq.quote_text           AS sepwq_quote_text,
         sepwq.creator_user_id      AS sepwq_creator_user_id,
         sepwq.created              AS sepwq_created,
         sepw.writ_id               AS sepwq_writ_id,
         sepw.title                 AS sepwq_writ_title"

/-- Every live justification whose id `source` selects, with its basis. -/
def justificationQuery (source : Fragment) (order : String) : Composing String := do
  let pc ← Composing.bind (code BasisType.propositionCompound)
  let wq ← Composing.bind (code BasisType.writQuote)
  let jbc ← Composing.bind (code BasisType.justificationBasisCompound)
  let atomProposition ← Composing.bind (code AtomType.proposition)
  let atomParaphrase ← Composing.bind (code AtomType.sourceExcerptParaphrase)
  let excerptQuote ← Composing.bind (code SourceExcerptType.writQuote)
  let sourceSql ← Composing.splice source
  let columns := justificationColumns
  return s!"SELECT {columns}
       FROM ({sourceSql}) AS src
       JOIN justifications j
         ON j.justification_id = src.justification_id
        AND j.deleted IS NULL
       LEFT JOIN proposition_compounds pc
         ON j.basis_type = {pc}
        AND pc.proposition_compound_id = j.basis_id
        AND pc.deleted IS NULL
       LEFT JOIN proposition_compound_atoms pca
         ON pca.proposition_compound_id = pc.proposition_compound_id
       LEFT JOIN propositions pcap
         ON pcap.proposition_id = pca.proposition_id
        AND pcap.deleted IS NULL
       LEFT JOIN writ_quotes wq
         ON j.basis_type = {wq}
        AND wq.writ_quote_id = j.basis_id
        AND wq.deleted IS NULL
       LEFT JOIN writs w
         ON w.writ_id = wq.writ_id
        AND w.deleted IS NULL
       LEFT JOIN justification_basis_compounds jbc
         ON j.basis_type = {jbc}
        AND jbc.justification_basis_compound_id = j.basis_id
        AND jbc.deleted IS NULL
       LEFT JOIN justification_basis_compound_atoms jbca
         ON jbca.justification_basis_compound_id = jbc.justification_basis_compound_id
       LEFT JOIN propositions jbcap
         ON jbca.entity_type = {atomProposition}
        AND jbcap.proposition_id = jbca.entity_id
        AND jbcap.deleted IS NULL
       LEFT JOIN source_excerpt_paraphrases sep
         ON jbca.entity_type = {atomParaphrase}
        AND sep.source_excerpt_paraphrase_id = jbca.entity_id
        AND sep.deleted IS NULL
       LEFT JOIN propositions sepp
         ON sepp.proposition_id = sep.paraphrasing_proposition_id
        AND sepp.deleted IS NULL
       LEFT JOIN writ_quotes sepwq
         ON sep.source_excerpt_type = {excerptQuote}
        AND sepwq.writ_quote_id = sep.source_excerpt_id
        AND sepwq.deleted IS NULL
       LEFT JOIN writs sepw
         ON sepw.writ_id = sepwq.writ_id
        AND sepw.deleted IS NULL
      ORDER BY {order}"

def justificationRows (source : Fragment) (order : String) : Fragment :=
  Composing.fragment (justificationQuery source order)

/-- The page, in its order. -/
def primaryRows (candidates : Fragment) (cs : List SortColumn) : Fragment :=
  justificationRows candidates (orderBy cs "j")

/-- The ids to which targets lead from a candidate. -/
def targetIds (candidates : Fragment) : Composing String := do
  let justification ← Composing.bind (code TargetType.justification)
  let candidateSql ← Composing.splice candidates
  return s!"WITH RECURSIVE target_chain(justification_id) AS (
       SELECT tj.target_id
         FROM justifications tj
        WHERE tj.target_type = {justification}
          AND tj.justification_id IN ({candidateSql})
       UNION
       SELECT tj.target_id
         FROM justifications tj
         JOIN target_chain tc ON tc.justification_id = tj.justification_id
        WHERE tj.target_type = {justification}
     )
     SELECT justification_id FROM target_chain"

/-- All justifications to which targets lead from a candidate. -/
def targetRows (candidates : Fragment) : Fragment :=
  justificationRows (Composing.fragment (targetIds candidates)) "j.justification_id"

/-- The ids of all live justifications that counter a candidate. -/
def counterIds (candidates : Fragment) : Composing String := do
  let justification ← Composing.bind (code TargetType.justification)
  let candidateSql ← Composing.splice candidates
  return s!"SELECT cj.justification_id
       FROM justifications cj
      WHERE cj.deleted IS NULL
        AND cj.target_type = {justification}
        AND cj.target_id IN ({candidateSql})"

/-- All live justifications that counter a candidate, the oldest first. -/
def counterRows (candidates : Fragment) : Fragment :=
  justificationRows (Composing.fragment (counterIds candidates)) "j.created, j.justification_id"

/-- All live propositions that are the target or the root of a candidate. -/
def propositionQuery (candidates : Fragment) : Composing String := do
  let target ← Composing.bind (code TargetType.proposition)
  let targetsSql ← Composing.splice candidates
  let root ← Composing.bind (code RootTargetType.proposition)
  let rootsSql ← Composing.splice candidates
  return s!"SELECT p.proposition_id, p.text, p.creator_user_id, p.created
       FROM propositions p
      WHERE p.deleted IS NULL
        AND p.proposition_id IN (
              SELECT j.target_id
                FROM justifications j
               WHERE j.target_type = {target}
                 AND j.justification_id IN ({targetsSql})
              UNION
              SELECT j.root_target_id
                FROM justifications j
               WHERE j.root_target_type = {root}
                 AND j.justification_id IN ({rootsSql})
            )"

def propositionRows (candidates : Fragment) : Fragment :=
  Composing.fragment (propositionQuery candidates)

end Rationale.Query
