import NasuaOS.ClawFS.Runs
import NasuaOS.Fat.Lookup

/-!
# Names in a path

The tokens that `get_sector_by_path` takes from its copy of a path are the names between the
slashes, so a walk along a path is a walk along its front part and then along the rest.
`clawfs.cpp:12–52,174–218`.
-/

namespace NasuaOS.ClawFS

open Base Libc Fat List

variable {disk : Disk} {path name : Bytes}

private theorem componentsFrom_slash (fuel : Nat) (path : Bytes) :
    componentsFrom fuel (slash :: path) = componentsFrom fuel path := by
  cases fuel with
  | zero => rfl
  | succ fuel =>
    rw [componentsFrom, componentsFrom,
      dropWhile_cons_of_pos (p := (· == slash)) (beq_self_eq_true slash)]

private theorem tokensFrom_eq (fuel : Nat) (rest : Bytes) :
    tokensFrom fuel rest = componentsFrom fuel rest := by
  induction fuel generalizing rest with
  | zero => rfl
  | succ fuel ih =>
    rw [tokensFrom, nextPathToken, componentsFrom]
    cases rest.dropWhile (· == slash) with
    | nil => rfl
    | cons c more =>
      dsimp only
      rw [if_neg (cons_ne_nil c more), ih]
      -- ClawFS also skips the slash behind the token.
      rcases dropWhile_ne_slash (c :: more) with hend | ⟨next, hend⟩
      · rw [hend]
        rfl
      · rw [hend, componentsFrom_slash]
        rfl

/-- The tokens of a path are its names. -/
theorem pathTokens_eq (path : Bytes) : pathTokens path = pathNames path :=
  (tokensFrom_eq _ _).trans (components_eq path)

/-- Names before a slash and behind it. -/
theorem pathNames_append_slash (front rest : Bytes) :
    pathNames (front ++ slash :: rest) = pathNames front ++ pathNames rest := by
  rw [pathNames, splitOn,
    splitOnP_append_cons (p := (· == slash)) _ _ (beq_self_eq_true slash), filter_append]
  rfl

/-- A name alone. -/
theorem pathNames_name (hne : name ≠ []) (hname : slash ∉ name) : pathNames name = [name] := by
  rw [pathNames, splitOn_eq_singleton hname]
  simp [hne]

/-- The last name of a path. -/
theorem pathNames_concat (front : Bytes) (hne : name ≠ []) (hname : slash ∉ name) :
    pathNames (front ++ slash :: name) = pathNames front ++ [name] := by
  rw [pathNames_append_slash, pathNames_name hne hname]

/-- A path with a slash ends in a name behind its last one. -/
theorem exists_last_slash (h : slash ∈ path) :
    ∃ front name, path = front ++ slash :: name ∧ slash ∉ name := by
  obtain ⟨back, rest, hcut, hback⟩ := eq_append_cons_of_mem (mem_reverse.mpr h)
  refine ⟨rest.reverse, back.reverse, ?_, ?_⟩
  · apply reverse_injective
    rw [hcut]
    simp
  · rwa [mem_reverse]

private theorem separatorBefore_append (front : Bytes) (hname : slash ∉ name) (n : Nat)
    (hn : n ≤ name.length) :
    separatorBefore (front ++ slash :: name) (front.length + 1 + n) = front.length + 1 := by
  induction n with
  | zero =>
    rw [Nat.add_zero, separatorBefore, if_pos]
    simp
  | succ n ih =>
    rw [← Nat.add_assoc, separatorBefore, if_neg, ih (by omega)]
    intro hslash
    apply hname
    rw [← hslash, getD_append_right _ _ _ _ (by omega),
      show front.length + 1 + n - front.length = n + 1 by omega, getD_cons_succ,
      getD_eq_getElem _ _ (by omega)]
    exact getElem_mem _

/-- The separator of a path is its last slash. -/
theorem separatorBefore_length (front : Bytes) (hname : slash ∉ name) :
    separatorBefore (front ++ slash :: name) (front ++ slash :: name).length =
      front.length + 1 := by
  rw [length_append, length_cons, Nat.add_comm name.length, ← Nat.add_assoc]
  exact separatorBefore_append front hname name.length le_rfl

/-- A path without a slash has no separator. -/
theorem separatorBefore_of_notMem (h : slash ∉ path) (n : Nat) (hn : n ≤ path.length) :
    separatorBefore path n = 0 := by
  induction n with
  | zero => rfl
  | succ n ih =>
    rw [separatorBefore, if_neg, ih (by omega)]
    intro hslash
    apply h
    rw [← hslash, getD_eq_getElem _ _ (by omega)]
    exact getElem_mem _

/-- A walk along names is a walk along the first and then along the others. -/
theorem lookupTokens_append {dir : Nat} (hdir : dir ≠ 0) (front rest : List Bytes) :
    lookupTokens disk dir (front ++ rest) = if lookupTokens disk dir front = 0 then 0
      else lookupTokens disk (lookupTokens disk dir front) rest := by
  induction front generalizing dir with
  | nil => rw [nil_append, lookupTokens, if_neg hdir]
  | cons token front ih =>
    rw [cons_append, lookupTokens, lookupTokens]
    cases he : findEntry (disk dir) token with
    | none => rfl
    | some e =>
      obtain ⟨-, -, -, -, -, hsector⟩ := findEntry_some he
      exact ih hsector

end NasuaOS.ClawFS
