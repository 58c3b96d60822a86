import Serveza.Foundation.Run

/-!
# Nested brackets

Brackets are opened and closed under names. They are nested if each one that is closed is the
last one that is still open, and the open ones then form a stack. A system whose steps open and
close brackets keeps them nested if the stack can be read off its states.
-/

namespace Foundation

/-- A bracket that is opened or closed. -/
inductive Bracket (κ : Type*) where
  | opens (k : κ)
  | closes (k : κ)
  deriving DecidableEq, Repr

/-- The open brackets, the last one first; one that is closed has to be the last one. -/
def Bracket.step {κ : Type*} [DecidableEq κ] : List κ → Bracket κ → Option (List κ)
  | stack, .opens k => some (k :: stack)
  | [], .closes _ => none
  | top :: stack, .closes k => if top = k then some stack else none

variable {S L κ : Type*} [DecidableEq κ] {step : S → L → Option S} {s t : S} {ls : List L}

/-- A run keeps its brackets nested if every step pushes what it opens and pops what it closes
in a relation between states and stacks. -/
theorem run_nested (bracket : L → Option (Bracket κ)) (R : S → List κ → Prop)
    (hnone : ∀ s l t stack, R s stack → step s l = some t → bracket l = none → R t stack)
    (hopens : ∀ s l t stack k, R s stack → step s l = some t →
      bracket l = some (.opens k) → R t (k :: stack))
    (hcloses : ∀ s l t stack k, R s stack → step s l = some t → bracket l = some (.closes k) →
      ∃ rest, stack = k :: rest ∧ R t rest)
    {stack : List κ} (hs : R s stack) (hrun : run step s ls = some t) :
    ∃ stack', run Bracket.step stack (ls.filterMap bracket) = some stack' ∧ R t stack' := by
  induction ls generalizing s stack with
  | nil =>
    obtain rfl := Option.some.inj hrun
    exact ⟨stack, rfl, hs⟩
  | cons l ls ih =>
    obtain ⟨a, ha, hrest⟩ := run_cons.mp hrun
    cases hbracket : bracket l with
    | none =>
      rw [List.filterMap_cons_none hbracket]
      exact ih (hnone s l a stack hs ha hbracket) hrest
    | some b =>
      rw [List.filterMap_cons_some hbracket]
      cases b with
      | opens k =>
        obtain ⟨stack', hstack, ht⟩ := ih (hopens s l a stack k hs ha hbracket) hrest
        exact ⟨stack', run_cons.mpr ⟨k :: stack, rfl, hstack⟩, ht⟩
      | closes k =>
        obtain ⟨rest, rfl, hpopped⟩ := hcloses s l a stack k hs ha hbracket
        obtain ⟨stack', hstack, ht⟩ := ih hpopped hrest
        exact ⟨stack', run_cons.mpr ⟨rest, if_pos rfl, hstack⟩, ht⟩

end Foundation
