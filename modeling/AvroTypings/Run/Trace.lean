import AvroTypings.Event
import AvroTypings.FileTree.Basic
import AvroTypings.Schema.Check

/-!
# Traces

Every stage of a run ends in a result or in an error, and has reported events by then. A trace
holds both.

## Main definitions

* `RunError`: why a run fails, with the wording and the chain of causes.
* `Trace`: how a stage ended and what it reported.
* `Trace.andThen`: one stage after the other.
-/

namespace AvroTypings

/-- Why a run fails. -/
inductive RunError where
  /-- A file or directory cannot be read. -/
  | read (path : Path) (cause : IoError)
  /-- A document is no schema. -/
  | parse (document : String) (cause : DecodeError)
  /-- A document has a defect that the run does not tolerate. -/
  | invalid (document : String) (cause : SchemaError)
  /-- The output cannot be written. -/
  | write (path : Path) (cause : IoError)

namespace RunError

/-- The wording of an error. -/
def message : RunError → String
  | read path cause => "failed to read '" ++ path.text ++ "': " ++ cause.message
  | parse document cause => "failed to parse '" ++ document ++ "': " ++ cause.message
  | invalid document cause => "invalid schema '" ++ document ++ "': " ++ cause.message
  | write path cause => "failed to write '" ++ path.text ++ "': " ++ cause.message

/-- The wordings of an error's cause, of the cause of that, and so on. -/
def causes : RunError → List String
  | read _ cause => [cause.message]
  | parse _ cause => cause.message :: cause.cause?.toList
  | invalid _ (.decode error) =>
    (SchemaError.decode error).message :: error.message :: error.cause?.toList
  | invalid _ cause => [cause.message]
  | write _ cause => [cause.message]

end RunError

/-- How a stage ended, and what it reported. -/
structure Trace (ε α : Type) where
  result : Except ε α
  events : List Event

namespace Trace

variable {ε α β : Type}

/-- A stage that ends in a value and reports nothing. -/
def done (a : α) : Trace ε α := ⟨.ok a, []⟩

/-- A stage that ends in an error and reports nothing. -/
def fail (e : ε) : Trace ε α := ⟨.error e, []⟩

/-- A stage that only reports. -/
def report (events : List Event) : Trace ε Unit := ⟨.ok (), events⟩

/-- One stage after the other; the second is left out if the first ends in an error. -/
def andThen (t : Trace ε α) (f : α → Trace ε β) : Trace ε β :=
  match t.result with
  | .ok a =>
    let next := f a
    ⟨next.result, t.events ++ next.events⟩
  | .error e => ⟨.error e, t.events⟩

@[simp] theorem done_andThen (a : α) (f : α → Trace ε β) : (done a).andThen f = f a := rfl

@[simp] theorem fail_andThen (e : ε) (f : α → Trace ε β) : (fail e).andThen f = fail e := rfl

@[simp] theorem report_andThen (events : List Event) (f : Unit → Trace ε β) :
    (report events).andThen f = ⟨(f ()).result, events ++ (f ()).events⟩ := rfl

theorem result_andThen_eq_ok {t : Trace ε α} {f : α → Trace ε β} {b : β} :
    (t.andThen f).result = .ok b ↔ ∃ a, t.result = .ok a ∧ (f a).result = .ok b := by
  unfold andThen
  cases t.result with
  | error e => simp
  | ok a => simp

end Trace

end AvroTypings
