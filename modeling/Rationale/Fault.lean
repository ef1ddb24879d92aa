/-
  Rationale — faults and warnings.

  A `Fault` is why an operation was refused: each constructor is a cause, and
  the wording of all of them is `Fault.text`.  A `Warning` is a soft
  inconsistency met on the way.  `Logged` carries both: its result, and the
  warnings given until then, which a fault does not take back.

  * `Coded.decode`: reading a stored text of an enumeration, or its fault;
  * `Instant.decode`: reading a stored timestamp, or its fault;
  * `Logged` is a lawful monad.
-/
import Rationale.Sql.Fragment
import Rationale.Text.Quoted
import Rationale.Time.Timestamp
import Rationale.Vocabulary

namespace Rationale

open Text Time

/-! ## Causes -/

/-- A state that the integrity of a store rules out. -/
inductive IntegrityFault where
  | notInIndex (id : Id)
  | targetCycle (id : Id) (path : List Id)
  /-- An entity that a justification names was not loaded. -/
  | notLoaded (kind : EntityKind) (id : Id)
  /-- A lookup did not find an id it was asked for. -/
  | notFound (kind : EntityKind) (id : Id)
  | excerptNotReached (id excerpt : Id)
deriving DecidableEq, Repr

inductive FilterFault where
  | noEquals (arg : String)
  | unknownName (key : String)
  | noValues (name : FilterName)
  | notAnId (name : FilterName) (raw : String)
deriving DecidableEq, Repr

inductive SortFault where
  | noProperty (arg : String)
  | unknownDirection (text : String)
  | unknownProperty (property : String)
  | repeated (property : String)
  | noBoundary (column : String)
  | notAnInteger (column raw : String)
  | notATimestamp (column raw : String)
deriving DecidableEq, Repr

inductive Fault where
  | integrity (cause : IntegrityFault)
  /-- A stored text that is no value of its enumeration. -/
  | unknownText (typeName value : String)
  | noEntity (kind : EntityKind) (id : Id)
  | filter (cause : FilterFault)
  | sort (cause : SortFault)
  | timestamp (text : String) (cause : Misread)
  /-- A statement with more arguments than a database takes. -/
  | tooManyArguments (sql : String)
deriving DecidableEq, Repr

/-! ## Wording -/

/-- Ids in brackets, separated by commas. -/
def idList (ids : List Id) : String :=
  "[" ++ ", ".intercalate (ids.map ofInt64) ++ "]"

def IntegrityFault.text : IntegrityFault → String
  | notInIndex id => "justification " ++ ofInt64 id ++ " is not in the index"
  | targetCycle id path =>
    "justification target cycle through " ++ ofInt64 id ++ ": " ++ idList path
  | notLoaded kind id => kind.text ++ " " ++ ofInt64 id ++ " is missing from its batched lookup"
  | notFound kind id => "batched " ++ kind.text ++ " lookup is missing id " ++ ofInt64 id
  | excerptNotReached id excerpt =>
    "justification " ++ ofInt64 id ++ " does not reach the shared media excerpt " ++ ofInt64 excerpt

def FilterFault.text : FilterFault → String
  | noEquals arg => "expected key=value, got " ++ quoted arg
  | unknownName key => "unknown filter " ++ quoted key
  | noValues name => Coded.text name ++ " has no values"
  | notAnId name raw => Coded.text name ++ " expects integer ids, got " ++ quoted raw

def SortFault.text : SortFault → String
  | noProperty arg => "missing sort property in " ++ quoted arg
  | unknownDirection text => "unknown sort direction " ++ quoted text
  | unknownProperty property => "cannot sort by " ++ quoted property
  | repeated property => quoted property ++ " is sorted twice"
  | noBoundary column => "continuation is missing a value for " ++ column
  | notAnInteger column raw => column ++ " expects an integer, got " ++ quoted raw
  | notATimestamp column raw => column ++ " expects an RFC 3339 timestamp, got " ++ quoted raw

/-- What a database says of a statement with too many arguments. -/
def refusal (sql : String) : String :=
  "variable number must be between ?1 and ?" ++ Sql.argumentLimit.repr ++ " in " ++ sql ++
    " at offset " ++ (Sql.offsetBeyond sql).repr

/-- The same, as it is passed on. -/
def passedOn (refusal : String) : String :=
  "Rusqlite(\"" ++ refusal ++ "\")"

namespace Fault

/-- What went wrong, without saying where. -/
def text : Fault → String
  | integrity cause => "impossible: " ++ cause.text
  | unknownText typeName value => "unhandled " ++ typeName ++ " value: " ++ quoted value
  | noEntity kind id => kind.text ++ " not found: " ++ ofInt64 id
  | filter cause => "invalid filter: " ++ cause.text
  | sort cause => "invalid sort: " ++ cause.text
  | timestamp text cause => "date/time parse error: " ++ quoted text ++ ": " ++ cause.message
  | tooManyArguments sql => "database error: " ++ passedOn (refusal sql)

/-- The fault is one of the data model rather than of a stored text or of the database. -/
def isCore : Fault → Bool
  | timestamp .. | tooManyArguments _ => false
  | _ => true

/-- The message of an operation on a store. -/
def message (f : Fault) : String :=
  if f.isCore then "core error: " ++ f.text else f.text

/-- The message and then what it wraps. -/
def causes (f : Fault) : List String :=
  match f with
  | timestamp .. => [f.message]
  | tooManyArguments sql => [f.message, passedOn (refusal sql), refusal sql]
  | _ => [f.message, f.text]

end Fault

/-! ## Decoding stored texts -/

/-- The value of an enumeration that a stored text spells. -/
def Coded.decode {α : Type} [Coded α] (s : String) : Except Fault α :=
  match Coded.read? s with
  | some a => .ok a
  | none => .error (.unknownText (Coded.typeName α) s)

/-- The instant that a stored text writes. -/
def Time.Instant.decode (s : String) : Except Fault Instant :=
  match Instant.read s with
  | .ok t => .ok t
  | .error cause => .error (.timestamp s cause)

@[simp]
theorem Coded.decode_text {α : Type} [Coded α] (a : α) : Coded.decode (Coded.text a) = .ok a := by
  simp [Coded.decode]

/-! ## Warnings -/

inductive Warning where
  /-- The targets of `id` lead to `missing`, which is not at hand. -/
  | walkAbandoned (id missing : Id)
  | walkLoops (id : Id)
  | targetNotLoaded (id target : Id)
  | polarity (id : Id) (violation : PolarityViolation)
  | onlyErrors (locator : Id) (attempts : Nat)
deriving DecidableEq, Repr

def Warning.message : Warning → String
  | walkAbandoned .. => "chain link is not materialized; abandoning media excerpt walk"
  | walkLoops _ => "justification target chain loops"
  | targetNotLoaded .. => "target justification was not loaded"
  | polarity .. => "justification breaks a polarity rule"
  | onlyErrors .. => "auto-confirmation history contains only errors"

/-- A result, or a fault, with the warnings given on the way. -/
structure Logged (α : Type) where
  result : Except Fault α
  warnings : List Warning

namespace Logged

variable {α β γ : Type}

protected def pure (a : α) : Logged α :=
  ⟨.ok a, []⟩

/-- Goes on after a result; a fault ends the run and keeps the warnings. -/
protected def bind (x : Logged α) (f : α → Logged β) : Logged β :=
  match x.result with
  | .ok a => ⟨(f a).result, x.warnings ++ (f a).warnings⟩
  | .error e => ⟨.error e, x.warnings⟩

instance : Monad Logged where
  pure := Logged.pure
  bind := Logged.bind

/-- A run that gives no warnings. -/
def ofExcept (r : Except Fault α) : Logged α :=
  ⟨r, []⟩

instance : MonadLift (Except Fault) Logged :=
  ⟨ofExcept⟩

def fail (e : Fault) : Logged α :=
  ⟨.error e, []⟩

def warn (ws : List Warning) : Logged Unit :=
  ⟨.ok (), ws⟩

theorem ext {x y : Logged α} (hr : x.result = y.result) (hw : x.warnings = y.warnings) : x = y := by
  cases x; cases y; simp_all

@[simp] theorem result_pure (a : α) : (pure a : Logged α).result = .ok a := rfl

@[simp] theorem warnings_pure (a : α) : (pure a : Logged α).warnings = [] := rfl

/-- The results alone are bound as those of `Except` are. -/
theorem result_bind (x : Logged α) (f : α → Logged β) :
    (x >>= f).result = x.result >>= fun a => (f a).result := by
  show (Logged.bind x f).result = _
  unfold Logged.bind
  cases x.result <;> rfl

theorem warnings_bind_ok {x : Logged α} {a : α} (h : x.result = .ok a) (f : α → Logged β) :
    (x >>= f).warnings = x.warnings ++ (f a).warnings := by
  show (Logged.bind x f).warnings = _
  simp [Logged.bind, h]

protected theorem bind_pure (x : Logged α) : Logged.bind x Logged.pure = x := by
  rcases x with ⟨_ | _, ws⟩ <;> simp [Logged.bind, Logged.pure]

protected theorem pure_bind (a : α) (f : α → Logged β) : Logged.bind (Logged.pure a) f = f a := by
  simp [Logged.bind, Logged.pure]

protected theorem bind_assoc (x : Logged α) (f : α → Logged β) (g : β → Logged γ) :
    Logged.bind (Logged.bind x f) g = Logged.bind x fun a => Logged.bind (f a) g := by
  rcases x with ⟨_ | a, ws⟩
  · rfl
  · simp only [Logged.bind]
    rcases (f a).result with _ | b <;> simp

instance : LawfulMonad Logged :=
  LawfulMonad.mk' Logged Logged.bind_pure Logged.pure_bind Logged.bind_assoc

end Logged

end Rationale
