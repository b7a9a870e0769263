import NasuaOS.ClawFS.Steps

/-!
# Names in a directory

A lookup stops at the first slot that answers to a name, so no directory should hold a name twice.
`clawfs_write_file` looks for its name before it makes an entry; `clawfs_mkdir` and
`clawfs_create_file_in` do not, and keep names distinct only when they are given a fresh one.
-/

namespace NasuaOS.ClawFS

open Base Libc

variable {m m' : Machine} {dirs : Nat → Prop} {depth : Nat → Nat} {d i : Nat} {op : Op}

/-- No directory holds a name twice. -/
def Distinct (disk : Disk) (dirs : Nat → Prop) : Prop :=
  ∀ (d i j : Nat) (name : CString), dirs d → Live disk d i → Live disk d j →
    named (disk d) name.val i = true → named (disk d) name.val j = true → i = j

/-- A slot answers to one name. -/
theorem named_unique {buffer : Sector} {a c : CString} (ha : named buffer a.val i = true)
    (hc : named buffer c.val i = true) : a = c := by
  rw [named_iff_holds _ _ _ a.property] at ha
  rw [named_iff_holds _ _ _ c.property] at hc
  exact Subtype.ext (ha.unique hc a.property c.property)

/-- Slots other than the edited one answer to the same names. -/
theorem Edit.named_eq (he : Edit m m' dirs d i) (h : Sound m dirs depth) {x j : Nat}
    (hx : dirs x) (hl : Live m.disk x j) (hne : (x, j) ≠ (d, i)) (name : Bytes) :
    named (m'.disk x) name j = named (m.disk x) name j :=
  ((he.sameSlot hx hl.1 hne).named_eq (h.entries x j hx hl).terminated name).symm

/-- An entry with a name that is new in its directory, or that its slot had before, keeps names
distinct. -/
theorem Put.distinct (hput : Put m m' dirs d i) (h : Sound m dirs depth)
    (hdistinct : Distinct m.disk dirs) {name : CString}
    (hname : named (m'.disk d) name.val i = true)
    (hfresh : findSlot (m.disk d) name.val = none ∨ findSlot (m.disk d) name.val = some i) :
    Distinct m'.disk (dirsWith dirs (entryAt (m'.disk d) i)) := by
  have hold (j : Nat) (hl : Live m.disk d j) (hne : (d, j) ≠ (d, i))
      (hj : named (m'.disk d) name.val j = true) : j = i := by
    rw [hput.edit.named_eq h hput.dir hl hne] at hj
    rcases hfresh with hnone | hfound
    · have hfree := firstSlot_none hnone j hl.1
      rw [hl.2, hj] at hfree
      cases hfree
    · obtain ⟨hi, hp⟩ := firstSlot_some hfound
      rw [Bool.and_eq_true] at hp
      exact hdistinct d j i name hput.dir hl ⟨hi, hp.1⟩ hj hp.2
  intro x j k other hx hj hk hnj hnk
  rcases hput.live_cases hx hj with ⟨rfl, rfl⟩ | ⟨hxo, hlj, hnej⟩
  · rcases hput.live_cases hx hk with ⟨-, rfl⟩ | ⟨-, hlk, hnek⟩
    · rfl
    · cases named_unique hnj hname
      exact (hold k hlk hnek hnk).symm
  · rcases hput.live_cases hx hk with ⟨rfl, rfl⟩ | ⟨-, hlk, hnek⟩
    · cases named_unique hnk hname
      exact hold j hlj hnej hnj
    · rw [hput.edit.named_eq h hxo hlj hnej] at hnj
      rw [hput.edit.named_eq h hxo hlk hnek] at hnk
      exact hdistinct x j k other hxo hlj hlk hnj hnk

private theorem Drop.distinct (hdrop : Drop m m' dirs d i) (h : Sound m dirs depth)
    (hdistinct : Distinct m.disk dirs) : Distinct m'.disk (dirsWithout m.disk dirs d i) := by
  intro x j k name hx hj hk hnj hnk
  obtain ⟨hlj, hnej⟩ := hdrop.live_cases hx.1 hj
  obtain ⟨hlk, hnek⟩ := hdrop.live_cases hx.1 hk
  rw [hdrop.edit.named_eq h hx.1 hlj hnej] at hnj
  rw [hdrop.edit.named_eq h hx.1 hlk hnek] at hnk
  exact hdistinct x j k name hx.1 hlj hlk hnj hnk

private theorem Op.zero_notMem_name (op : Op) : (0 : UInt8) ∉ op.name := by
  cases op with
  | mkdir _ dirName => exact dirName.property
  | createFileIn _ name | rm _ name _ => exact name.property
  | writeFile path data =>
    rw [Op.name]
    cases hs : splitFilePath path.val with
    | none => exact List.not_mem_nil
    | some parts => exact fun hc => path.property ((splitFilePath_name hs).2.2 0 hc)

/-- An operation with a fresh name keeps the invariant, and names distinct. -/
theorem Sound.after_distinct (h : Sound m dirs depth) (he : Effect m m' dirs depth op)
    (hfresh : op.Fresh m.disk) (hdistinct : Distinct m.disk dirs) :
    ∃ dirs' depth', Sound m' dirs' depth' ∧ Distinct m'.disk dirs' := by
  cases he with
  | same unchanged =>
    subst unchanged
    exact ⟨dirs, depth, h, hdistinct⟩
  | put d i entry _ _ called fresh =>
    let name : CString := ⟨op.name, op.zero_notMem_name⟩
    have hname : named (m'.disk d) name.val i = true := called
    exact ⟨_, _, h.put entry, entry.distinct h hdistinct hname (fresh hfresh)⟩
  | drop d i entry => exact ⟨_, _, h.drop entry, entry.distinct h hdistinct⟩

end NasuaOS.ClawFS
