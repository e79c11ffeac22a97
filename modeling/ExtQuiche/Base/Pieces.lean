import Mathlib.Data.List.Basic

/-!
# Cutting marked chunks into pieces

Library `Base`. A chunk is a list of symbols with an end mark. A sender that is taken
at its word piece by piece may split a chunk anywhere before its last symbol; the mark
stays with the last piece. `Cuts ps cs` says that the pieces `ps` are the chunks `cs`,
in order, so cut.
-/

namespace ExtQuiche.Base

universe u

/-- Symbols with an end mark. -/
abbrev Piece (α : Type u) := List α × Bool

variable {α : Type u}

/-- Symbols of a list of pieces, in order. -/
def symbols (ps : List (Piece α)) : List α := ps.flatMap Prod.fst

/-- The pieces are the chunks, each cut before its last symbol at most. -/
inductive Cuts : List (Piece α) → List (Piece α) → Prop where
  | nil : Cuts [] []
  | whole {ps cs : List (Piece α)} (c : Piece α) (h : Cuts ps cs) : Cuts (c :: ps) (c :: cs)
  | split {ps cs : List (Piece α)} (front rest : List α) (mark : Bool) (hrest : rest ≠ [])
      (h : Cuts ps ((rest, mark) :: cs)) : Cuts ((front, false) :: ps) ((front ++ rest, mark) :: cs)

@[simp] theorem symbols_cons (p : Piece α) (ps : List (Piece α)) :
    symbols (p :: ps) = p.1 ++ symbols ps := rfl

@[simp] theorem symbols_append (ps qs : List (Piece α)) :
    symbols (ps ++ qs) = symbols ps ++ symbols qs := List.flatMap_append

namespace Cuts

variable {ps qs cs ds : List (Piece α)}

/-- Cutting neither loses, repeats nor reorders a symbol. -/
theorem symbols_eq (h : Cuts ps cs) : symbols ps = symbols cs := by
  induction h with
  | nil => rfl
  | whole c _ ih => rw [symbols_cons, symbols_cons, ih]
  | split front rest mark _ _ ih =>
    rw [symbols_cons, symbols_cons, ih, symbols_cons, List.append_assoc]

/-- Later chunks are cut independently of earlier ones. -/
theorem append (h : Cuts ps cs) (h' : Cuts qs ds) : Cuts (ps ++ qs) (cs ++ ds) := by
  induction h with
  | nil => exact h'
  | whole c _ ih => exact .whole c ih
  | split front rest mark hrest _ ih => exact .split front rest mark hrest ih

/-- A chunk that is not cut is a piece. -/
theorem snoc (h : Cuts ps cs) (c : Piece α) : Cuts (ps ++ [c]) (cs ++ [c]) :=
  h.append (.whole c .nil)

/-- A piece may be cut further before its last symbol. -/
theorem refine {front rest : List α} {mark : Bool} (hrest : rest ≠ [])
    (h : Cuts (ps ++ (front ++ rest, mark) :: qs) cs) :
    Cuts (ps ++ (front, false) :: (rest, mark) :: qs) cs := by
  induction ps generalizing cs with
  | nil =>
    cases h with
    | whole _ h => exact .split front rest mark hrest (.whole _ h)
    | split _ tail mark' htail h =>
      -- the cut piece was itself not the last of its chunk
      rw [List.append_assoc]
      exact .split front (rest ++ tail) mark' (by simp [hrest]) (.split rest tail mark' htail h)
  | cons p ps ih =>
    cases h with
    | whole _ h => exact .whole p (ih h)
    | split head tail mark' htail h => exact .split head tail mark' htail (ih h)

/-- A marked piece ends its chunk: cutting the pieces there cuts the chunks there,
and the piece has the last symbols of its chunk. -/
theorem at_mark {last : List α} (h : Cuts (ps ++ (last, true) :: qs) cs) :
    ∃ ds c es, cs = ds ++ c :: es ∧ c.2 = true ∧ (c.1 ≠ [] → last ≠ []) ∧
      Cuts (ps ++ [(last, true)]) (ds ++ [c]) ∧ Cuts qs es := by
  induction ps generalizing cs with
  | nil =>
    cases h with
    | whole _ h => exact ⟨[], _, _, rfl, rfl, id, .whole _ .nil, h⟩
  | cons p ps ih =>
    cases h with
    | whole _ h =>
      obtain ⟨ds, c, es, rfl, hc, hl, hleft, hright⟩ := ih h
      exact ⟨p :: ds, c, es, rfl, hc, hl, .whole p hleft, hright⟩
    | split head tail mark htail h =>
      obtain ⟨ds, c, es, he, hc, hl, hleft, hright⟩ := ih h
      cases ds with
      | nil =>
        obtain ⟨rfl, rfl⟩ := List.cons.inj he
        exact ⟨[], _, _, rfl, hc, fun _ ↦ hl htail, .split head tail mark htail hleft, hright⟩
      | cons d ds =>
        obtain ⟨rfl, rfl⟩ := List.cons.inj he
        exact ⟨_ :: ds, c, es, rfl, hc, hl, .split head tail mark htail hleft, hright⟩

end Cuts

end ExtQuiche.Base
