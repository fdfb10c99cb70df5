import SocLab.Py.Model
import SocLab.Logic.Except

/-!
# SocLab.Parsers.Errors — controlled errors of event ingestion and normalization

`parsers/errors.py`.  `IngestionRaised` is everything that the functions of the package can raise: the four
classes of the module, and what escapes from the standard library and from pydantic.  The `except`
clauses of the package are `exceptValueError` and `exceptValidationError`.
-/

namespace SocLab

open Py Logic

/-- The message of an unsupported event.  `{…!r}` is the `repr` of a text. -/
inductive UnsupportedEvent where
  /-- `unsupported event provider: {provider!r}` -/
  | provider (provider : String)
  /-- `unsupported event ID {eventId} for provider {provider!r}` -/
  | eventId (eventId provider : String)
  /-- `unsupported {source} identity: {provider!r}, {channel!r}, {eventId}` -/
  | identity (source provider channel eventId : String)
  deriving DecidableEq

/-- What the ingestion raises: the errors of the package, and what is not handled. -/
inductive IngestionRaised where
  | malformedEventXml (message : String)
  | invalidRawEvent (message : String)
  | unsupportedEvent (message : UnsupportedEvent)
  | invalidNormalizedEvent (message : String)
  /-- pydantic's `ValidationError`. -/
  | validation (errors : List LineError)
  | exception (e : Exc)
  deriving DecidableEq

namespace IngestionRaised

/-- One of the errors of the package. -/
def Controlled : IngestionRaised → Prop
  | malformedEventXml _ | invalidRawEvent _ | unsupportedEvent _ | invalidNormalizedEvent _ => True
  | validation _ | exception _ => False

instance : DecidablePred Controlled := fun e => by
  cases e <;> unfold Controlled <;> infer_instance

/-- An error of the package, or one that its handlers of `ValidationError` turn into one. -/
def Handled (e : IngestionRaised) : Prop := e.Controlled ∨ ∃ errors, e = validation errors

theorem Controlled.handled {e : IngestionRaised} (h : e.Controlled) : e.Handled := Or.inl h

theorem handled_validation (errors : List LineError) : (validation errors).Handled := Or.inr ⟨errors, rfl⟩

/-- An error of the data of an event: an `InvalidNormalizedEventError`, or the `ValidationError` that the
normalizers turn into one. -/
def OfData (e : IngestionRaised) : Prop :=
  (∃ message, e = invalidNormalizedEvent message) ∨ ∃ errors, e = validation errors

theorem ofData_invalidNormalizedEvent (message : String) : (invalidNormalizedEvent message).OfData :=
  Or.inl ⟨message, rfl⟩

theorem ofData_validation (errors : List LineError) : (validation errors).OfData := Or.inr ⟨errors, rfl⟩

theorem OfData.handled {e : IngestionRaised} (h : e.OfData) : e.Handled := by
  rcases h with ⟨message, rfl⟩ | h
  · exact Or.inl trivial
  · exact Or.inr h

theorem not_handled_exception (e : Exc) : ¬ (exception e).Handled := by
  rintro (h | ⟨errors, h⟩)
  · exact h
  · cases h

end IngestionRaised

section Handlers

variable {α : Type}

/-- A call into the standard library. -/
def ofCall (x : Except Exc α) : Except IngestionRaised α := x.mapError .exception

/-- `try: … except ValueError as exc: raise handled from exc`, around a call into the standard
library. -/
def exceptValueError (x : Except Exc α) (handled : IngestionRaised) : Except IngestionRaised α :=
  match x with
  | .ok a => .ok a
  | .error .valueError => .error handled
  | .error e => .error (.exception e)

/-- The construction of a model. -/
def validated : Validation α → Except IngestionRaised α
  | .ok a => .ok a
  | .invalid errors => .error (.validation errors)
  | .exception e => .error (.exception e)

/-- `try: … except ValidationError as exc: raise handled from exc`. -/
def exceptValidationError (x : Except IngestionRaised α) (handled : IngestionRaised) :
    Except IngestionRaised α :=
  match x with
  | .error (.validation _) => .error handled
  | x => x

theorem exceptValueError_eq_ok {x : Except Exc α} {handled : IngestionRaised} {a : α} :
    exceptValueError x handled = .ok a ↔ x = .ok a := by
  unfold exceptValueError
  split <;> simp

theorem exceptValidationError_eq_ok {x : Except IngestionRaised α} {handled : IngestionRaised} {a : α} :
    exceptValidationError x handled = .ok a ↔ x = .ok a := by
  unfold exceptValidationError
  split <;> simp

theorem validated_eq_ok {x : Validation α} {a : α} : validated x = .ok a ↔ x = .ok a := by
  cases x <;> simp [validated]

theorem raisesOnly_handled {x : Except IngestionRaised α} (hx : RaisesOnly IngestionRaised.Controlled x) :
    RaisesOnly IngestionRaised.Handled x := hx.mono fun _ => IngestionRaised.Controlled.handled

/-- A call that raises nothing but `ValueError`, with its handler. -/
theorem raisesOnly_exceptValueError {P : IngestionRaised → Prop} {x : Except Exc α}
    {handled : IngestionRaised} (hx : RaisesOnly (· = .valueError) x) (h : P handled) :
    RaisesOnly P (exceptValueError x handled) := by
  unfold exceptValueError
  split
  · exact raisesOnly_ok _
  · exact raisesOnly_error.mpr h
  · next e hne => exact absurd (hx e rfl) hne

/-- The handler adds a class of errors to those that pass. -/
theorem raisesOnly_exceptValidationError {x : Except IngestionRaised α} {handled : IngestionRaised}
    (h : handled.Controlled) :
    RaisesOnly IngestionRaised.Controlled (exceptValidationError x handled) ↔
      RaisesOnly IngestionRaised.Handled x := by
  unfold exceptValidationError
  split
  · next errors =>
    exact iff_of_true (raisesOnly_error.mpr h) (raisesOnly_error.mpr (IngestionRaised.handled_validation _))
  · next hne =>
    refine forall_congr' fun e => imp_congr_right fun he => ⟨Or.inl, ?_⟩
    rintro (hc | ⟨errors, rfl⟩)
    · exact hc
    · exact absurd he (hne errors)

/-- A model whose validators raise nothing but validation errors. -/
theorem raisesOnly_validated {P : IngestionRaised → Prop} {x : Validation α} (hx : x.Clean)
    (h : ∀ errors, P (.validation errors)) : RaisesOnly P (validated x) := by
  cases x with
  | ok a => exact raisesOnly_ok a
  | invalid errors => exact raisesOnly_error.mpr (h errors)
  | exception e => exact absurd rfl (hx e)

end Handlers

end SocLab
