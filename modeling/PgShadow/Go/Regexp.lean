/-
# Replacing in texts

`ReplaceAllString` of `regexp`. The expression reads the runes of the text, what is not
matched is copied byte by byte, so each rune is kept with its bytes (`chunks`). The
replacement is copied as it is; a `$` in it, which would refer to a group of the
expression, is not modelled.

Key definitions: `chunks`, `replaceAllString`.
Key theorems: `map_chunks`, `flatMap_chunks`, `chunks_append`.
-/
import PgShadow.Go.Runes
import PgShadow.Lib.Replace

namespace PgShadow

/-- The runes of a text, each with its bytes. -/
def chunks : Bytes → List (Bytes × ℕ)
  | [] => []
  | b :: t =>
    (b :: t.take ((decodeRune (b :: t)).2 - 1), (decodeRune (b :: t)).1) ::
      chunks (t.drop ((decodeRune (b :: t)).2 - 1))
termination_by s => s.length
decreasing_by
  simp only [List.length_drop, List.length_cons]
  omega

/-- `Regexp.ReplaceAllString`. -/
def replaceAllString (r : Regex ℕ) (s rep : Bytes) : Bytes := r.replace Prod.snd Prod.fst rep (chunks s)

theorem map_chunks (s : Bytes) : (chunks s).map Prod.snd = runes s := by
  fun_induction chunks s with
  | case1 => rw [runes, List.map_nil]
  | case2 b t ih => rw [List.map_cons, ih, runes]

theorem flatMap_chunks (s : Bytes) : (chunks s).flatMap Prod.fst = s := by
  fun_induction chunks s with
  | case1 => rfl
  | case2 b t ih => rw [List.flatMap_cons, ih, List.cons_append, List.take_append_drop]

/-- A text is read in two parts before a byte that starts a rune. -/
theorem chunks_append {x : UInt8} (hx : startsRune x) (v u : Bytes) :
    chunks (u ++ x :: v) = chunks u ++ chunks (x :: v) := by
  fun_induction chunks u with
  | case1 => rfl
  | case2 b t ih =>
    have hwidth := (decodeRune_bounds b t).1
    rw [List.cons_append, chunks, decodeRune_append b t hx, List.drop_append_of_le_length (by omega),
      List.take_append_of_le_length (by omega), ih]
    rfl

end PgShadow
