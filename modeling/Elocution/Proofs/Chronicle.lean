import Mathlib.Data.List.Basic
import Mathlib.Data.List.Infix

/-!
# Records

A record whose entries are each in keeping with the entries before them. A record is extended at
its end, so such a property is kept by looking at the new entry alone.
-/

namespace Elocution

variable {α : Type} {fits other : List α → α → Prop} {entries more : List α} {entry : α}

/-- Each entry of a record fits the entries before it. -/
def Chronicle (fits : List α → α → Prop) (entries : List α) : Prop :=
  ∀ before entry, before ++ [entry] <+: entries → fits before entry

namespace Chronicle

theorem nil : Chronicle fits [] := by
  intro before entry h
  simp at h

theorem concat_iff :
    Chronicle fits (entries ++ [entry]) ↔ Chronicle fits entries ∧ fits entries entry := by
  constructor
  · intro h
    exact ⟨fun before e hp => h before e (hp.trans (List.prefix_append ..)),
      h entries entry List.prefix_rfl⟩
  · rintro ⟨hall, hlast⟩ before e hp
    rcases List.prefix_concat_iff.mp hp with heq | hp
    · obtain ⟨rfl, he⟩ := List.append_inj' heq rfl
      obtain rfl := List.singleton_inj.mp he
      exact hlast
    · exact hall before e hp

theorem append (h : Chronicle fits entries) (hm : ∀ e ∈ more, ∀ before, fits before e) :
    Chronicle fits (entries ++ more) := by
  induction more generalizing entries with
  | nil => simpa using h
  | cons e rest ih =>
    rw [List.append_cons]
    refine ih (concat_iff.mpr ⟨h, hm e List.mem_cons_self _⟩) fun x hx => ?_
    exact hm x (List.mem_cons_of_mem _ hx)

theorem mono (h : Chronicle fits entries) (hf : ∀ before e, fits before e → other before e) :
    Chronicle other entries :=
  fun before e hp => hf before e (h before e hp)

end Chronicle

end Elocution
