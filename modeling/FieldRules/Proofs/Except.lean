import Mathlib.Logic.Basic
import Mathlib.Logic.Function.Basic

/-!
When a computation that can fail gives a result, and when it fails, for the steps that the readers and
checks are made of.
-/

namespace FieldRules

theorem bind_eq_ok_iff {ε α β : Type} {found : Except ε α} {next : α → Except ε β} {result : β} :
    found >>= next = .ok result ↔ ∃ value, found = .ok value ∧ next value = .ok result := by
  cases found <;> simp [bind, Except.bind]

@[simp] theorem mapError_ok {ε δ α : Type} (wrap : ε → δ) (value : α) :
    (Except.ok value).mapError wrap = .ok value := rfl

@[simp] theorem mapError_error {ε δ α : Type} (wrap : ε → δ) (fault : ε) :
    (Except.error fault : Except ε α).mapError wrap = .error (wrap fault) := rfl

theorem mapError_eq_ok_iff {ε δ α : Type} {found : Except ε α} {wrap : ε → δ} {result : α} :
    found.mapError wrap = .ok result ↔ found = .ok result := by
  cases found with
  | error fault => exact ⟨nofun, nofun⟩
  | ok value =>
      constructor
      · rintro ⟨⟩
        rfl
      · rintro ⟨⟩
        rfl

theorem bind_eq_error_iff {ε α β : Type} {found : Except ε α} {next : α → Except ε β} {fault : ε} :
    found >>= next = .error fault ↔
      found = .error fault ∨ ∃ value, found = .ok value ∧ next value = .error fault := by
  cases found <;> simp [bind, Except.bind]

theorem map_eq_ok_iff {ε α β : Type} {found : Except ε α} {f : α → β} {result : β} :
    found.map f = .ok result ↔ ∃ value, found = .ok value ∧ f value = result := by
  cases found <;> simp [Except.map]

theorem map_eq_error_iff {ε α β : Type} {found : Except ε α} {f : α → β} {fault : ε} :
    found.map f = .error fault ↔ found = .error fault := by
  cases found <;> simp [Except.map]

theorem mapError_eq_error_iff {ε δ α : Type} {found : Except ε α} {wrap : ε → δ} {fault : δ} :
    found.mapError wrap = .error fault ↔ ∃ own, found = .error own ∧ wrap own = fault := by
  cases found <;> simp

theorem mapError_inj {ε δ α : Type} {wrap : ε → δ} (injective : wrap.Injective)
    {first second : Except ε α} : first.mapError wrap = second.mapError wrap ↔ first = second := by
  cases first <;> cases second <;> simp [injective.eq_iff]

theorem guard_eq_ok_iff {ε α : Type} {refused : Prop} [Decidable refused] {fault : ε}
    {next : Except ε α} {result : α} :
    (if refused then .error fault else next) = .ok result ↔ ¬refused ∧ next = .ok result := by
  split <;> simp_all

end FieldRules
