/-
# Maps that may raise

A list mapped by a function that may raise: all is mapped where none raises
(`mapM_of_ok`), and where all is mapped none raises (`ok_of_mapM`) and nothing
else is mapped to (`mem_of_mapM`).
-/
import Mathlib.Data.Nat.Notation

namespace MqResiliency
namespace Py

section
variable {α β ε : Type}

theorem exists_of_bind {x : Except ε α} {k : α → Except ε β} {b : β} (h : x >>= k = .ok b) :
    ∃ a, x = .ok a ∧ k a = .ok b := by
  cases x with
  | error e => cases h
  | ok a => exact ⟨a, rfl, h⟩

variable {f : α → Except ε β}

theorem mapM_of_ok {g : α → β} : ∀ {as : List α}, (∀ a ∈ as, f a = .ok (g a)) → as.mapM f = .ok (as.map g)
  | [], _ => rfl
  | a :: as, h => by
    rw [List.mapM_cons, h a List.mem_cons_self, mapM_of_ok fun a' ha' => h a' (List.mem_cons_of_mem a ha')]
    rfl

theorem ok_of_mapM : ∀ {as : List α} {bs : List β}, as.mapM f = .ok bs → ∀ a ∈ as, ∃ b, f a = .ok b
  | a :: as, bs, h, a', ha' => by
    rw [List.mapM_cons] at h
    obtain ⟨b, hb, h⟩ := exists_of_bind h
    obtain ⟨bs', hbs, -⟩ := exists_of_bind h
    rcases List.mem_cons.mp ha' with rfl | ha'
    · exact ⟨b, hb⟩
    · exact ok_of_mapM hbs a' ha'

/-- What a map comes to is what its elements come to. -/
theorem mem_of_mapM : ∀ {as : List α} {bs : List β}, as.mapM f = .ok bs → ∀ b, b ∈ bs ↔ ∃ a ∈ as, f a = .ok b
  | [], bs, h, b => by
    obtain rfl : [] = bs := Except.ok.inj h
    simp
  | a :: as, bs, h, b => by
    rw [List.mapM_cons] at h
    obtain ⟨b₀, hb₀, h⟩ := exists_of_bind h
    obtain ⟨bs', hbs, h⟩ := exists_of_bind h
    obtain rfl : b₀ :: bs' = bs := Except.ok.inj h
    have hhead : f a = .ok b ↔ b = b₀ := by
      rw [hb₀]
      exact ⟨fun h => (Except.ok.inj h).symm, fun h => h ▸ rfl⟩
    simp only [List.mem_cons, mem_of_mapM hbs b, exists_eq_or_imp, hhead]

end

end Py
end MqResiliency
