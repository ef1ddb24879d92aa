/-
  Rationale — the statements that look up what a page names.

  Each of them is about a list of ids, and every id is an argument of its own.
  So they grow with what they are asked for, and so do their texts.

  What they find in a store is in `Rationale.Store.Lookup`, and the readers that
  send them are in `Rationale.Store.Readers`.
-/
import Rationale.Query.Path

namespace Rationale.Query

open Sql

/-- A statement whose text has a place for a list of ids. -/
def byIds (text : String → String) (ids : List Id) : Fragment :=
  Composing.fragment do return text (← Composing.bindAll (ids.map .integer))

/-! ## Users and statements -/

def usersById : List Id → Fragment :=
  byIds fun list =>
    s!"SELECT user_id, long_name FROM users WHERE deleted IS NULL AND user_id IN ({list})"

/-- The kind of a sentence is bound before the ids. -/
def statementsById (ids : List Id) : Fragment :=
  Composing.fragment do
    let proposition ← Composing.bind (code SentenceType.proposition)
    let list ← Composing.bindAll (ids.map .integer)
    return s!"SELECT s.statement_id, s.sentence_type, s.sentence_id, s.creator_user_id, s.created,
              po.persorg_id, po.name AS persorg_name, po.is_organization,
              sp.proposition_id  AS sp_id,
              sp.text            AS sp_text,
              sp.creator_user_id AS sp_creator_user_id,
              sp.created         AS sp_created
         FROM statements s
         JOIN persorgs po
           ON po.persorg_id = s.speaker_persorg_id
          AND po.deleted IS NULL
         LEFT JOIN propositions sp
           ON s.sentence_type = {proposition}
          AND sp.proposition_id = s.sentence_id
          AND sp.deleted IS NULL
        WHERE s.deleted IS NULL
          AND s.statement_id IN ({list})"

/-! ## Media excerpts -/

def mediaExcerptsById : List Id → Fragment :=
  byIds fun list => s!"SELECT media_excerpt_id, quotation, creator_user_id, created
             FROM media_excerpts
            WHERE deleted IS NULL
              AND media_excerpt_id IN ({list})"

/-- The locators of media excerpts. -/
def locatorsByExcerpt : List Id → Fragment :=
  byIds fun list => s!"SELECT ul.url_locator_id, ul.media_excerpt_id, u.url_id, u.url
             FROM url_locators ul
             JOIN urls u
               ON u.url_id = ul.url_id
              AND u.deleted IS NULL
            WHERE ul.deleted IS NULL
              AND ul.media_excerpt_id IN ({list})
            ORDER BY ul.url_locator_id"

/-- The citations of media excerpts. -/
def citationsByExcerpt : List Id → Fragment :=
  byIds fun list => s!"SELECT c.media_excerpt_id, s.source_id, s.description, c.pincite
             FROM media_excerpt_citations c
             JOIN sources s
               ON s.source_id = c.source_id
              AND s.deleted IS NULL
            WHERE c.deleted IS NULL
              AND c.media_excerpt_id IN ({list})
            ORDER BY c.media_excerpt_id, s.source_id"

/-- The attempts of locators. -/
def attemptsByLocator : List Id → Fragment :=
  byIds fun list => s!"SELECT result_id, url_locator_id, complete_at, status, quotation, found_quotation, error_message
         FROM url_locator_auto_confirmation_results
        WHERE url_locator_id IN ({list})
        ORDER BY complete_at, result_id"

/-! ## URLs of writ quotes -/

/-- The URLs of writ quotes. -/
def urlsByQuote : List Id → Fragment :=
  byIds fun list => s!"SELECT wqu.writ_quote_id, u.url_id, u.url
         FROM writ_quote_urls wqu
         JOIN urls u
           ON u.url_id = wqu.url_id
          AND u.deleted IS NULL
        WHERE wqu.deleted IS NULL
          AND wqu.writ_quote_id IN ({list})
        ORDER BY wqu.writ_quote_id, u.url_id"

/-- A pair of ids in brackets. -/
def bindPair (pair : Id × Id) : Composing String := do
  let quote ← Composing.bind (.integer pair.1)
  let url ← Composing.bind (.integer pair.2)
  return s!"({quote}, {url})"

/-- The targets of quotes at URLs. -/
def urlTargetsByPair (pairs : List (Id × Id)) : Fragment :=
  Composing.fragment do
    let values := ", ".intercalate (← pairs.mapM bindPair)
    return s!"SELECT t.url_target_id, t.writ_quote_id, t.url_id,
              a.exact_text, a.prefix_text, a.suffix_text, a.start_offset, a.end_offset
         FROM writ_quote_url_targets t
         LEFT JOIN writ_quote_url_target_anchors a
           ON a.url_target_id = t.url_target_id
          AND a.deleted IS NULL
        WHERE t.deleted IS NULL
          AND (t.writ_quote_id, t.url_id) IN (VALUES {values})
        ORDER BY t.url_target_id DESC, a.anchor_id"

end Rationale.Query
