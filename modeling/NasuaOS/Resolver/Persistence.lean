import NasuaOS.Resolver.Tombstones

/-!
# Tombstones over a reboot

Sixty tombstones of 257 bytes take 31 sectors, but only one sector is written and read. It holds the
first tombstone and the path of the second without its flag, so `file_resolver_init` restores at most
the first one. `file_resolver.cpp:66–132`.
-/

namespace NasuaOS.Resolver

open Base Libc ClawFS List

variable {s : State} {ts : List Tombstone} {t : Tombstone}

/-- A tombstone that the calls make. -/
structure Tombstone.Ok (t : Tombstone) : Prop where
  deleted : t.deleted = true
  nonempty : t.path ≠ []
  short : t.path.length < deletedOffset
  string : (0 : UInt8) ∉ t.path

/-- Memory without a `deleted` flag behind the sector: that of the first entry lies inside it. -/
def Quiet (memory : Nat → UInt8) : Prop :=
  ∀ i < maxTombstones, 0 < i → memory (tombstoneSize * i + deletedOffset) = 0

private theorem byte_putTombstones (buffer : Sector) (ts : List Tombstone) {i k : Nat} (hi : 0 < i)
    (hk : k < tombstoneSize) : (putTombstones buffer ts i).byte k = buffer.byte k := by
  induction ts generalizing buffer i with
  | nil => rfl
  | cons t rest ih =>
    have hle : tombstoneSize ≤ tombstoneSize * i := Nat.le_mul_of_pos_right _ hi
    have hsector : k < 512 := Nat.lt_trans hk (by decide)
    rw [putTombstones, ih _ (Nat.succ_pos i), putTombstone, Buffer.byte_putByte _ _ _ _ hsector,
      if_neg (by omega), Buffer.byte_putString _ _ _ _ hsector, if_neg (by omega),
      if_neg (by omega)]

private theorem byte_tombstoneImage (t : Tombstone) (ts : List Tombstone) {k : Nat}
    (hk : k < tombstoneSize) : (tombstoneImage (t :: ts)).byte k =
      if k = deletedOffset then (if t.deleted then 1 else 0) else t.path.getD k 0 := by
  have hsector : k < 512 := Nat.lt_trans hk (by decide)
  rw [tombstoneImage, maxTombstones, take_succ_cons, putTombstones,
    byte_putTombstones _ _ Nat.one_pos hk, putTombstone, Nat.mul_zero, Nat.zero_add,
    Buffer.byte_putByte _ _ _ _ hsector, Buffer.byte_putString _ _ _ _ hsector, Buffer.byte_zero,
    Nat.zero_add, ite_self]
  apply ite_congr rfl (fun _ => rfl)
  intro _
  split
  · rw [Nat.sub_zero]
  · next hpath => rw [getD_eq_default _ _ (by omega)]

private theorem tombstoneAt_tombstoneImage (h : ∀ t ∈ ts, t.Ok) :
    tombstoneAt (tombstoneImage ts).byte 0 = ts.head? := by
  cases ts with
  | nil =>
    rw [tombstoneAt, if_neg]
    · rfl
    · rintro ⟨hne, -⟩
      exact hne rfl
  | cons t ts =>
    have hok := h t mem_cons_self
    have hdeleted : (tombstoneImage (t :: ts)).byte deletedOffset = 1 := by
      rw [byte_tombstoneImage _ _ (by decide), if_pos rfl, hok.deleted, if_pos rfl]
    have hpath (k : Nat) (hk : k < deletedOffset) :
        (tombstoneImage (t :: ts)).byte k = t.path.getD k 0 := by
      rw [byte_tombstoneImage _ _ (Nat.lt_succ_of_lt hk), if_neg (Nat.ne_of_lt hk)]
    have hfirst : (tombstoneImage (t :: ts)).byte 0 ≠ 0 := by
      have hpos := length_pos_of_ne_nil hok.nonempty
      rw [hpath 0 (by decide), getD_eq_getElem _ _ hpos]
      intro hzero
      exact hok.string (hzero ▸ getElem_mem hpos)
    rw [tombstoneAt, Nat.mul_zero, Nat.zero_add, hdeleted, if_pos ⟨hfirst, by decide⟩,
      head?_cons]
    have hread : (range deletedOffset).map (fun k => (tombstoneImage (t :: ts)).byte (0 + k)) =
        (range deletedOffset).map fun k => t.path.getD k 0 := by
      apply map_congr_left
      intro k hk
      rw [Nat.zero_add, hpath k (mem_range.mp hk)]
    rw [hread, cstring_getD hok.short.le hok.string]
    cases t
    cases hok.deleted
    rfl

private theorem tombstoneAt_sectorInMemory_zero (sector : Sector) (memory : Nat → UInt8) :
    tombstoneAt (sectorInMemory sector memory) 0 = tombstoneAt sector.byte 0 := by
  have hbyte (k : Nat) (hk : k < 512) : sectorInMemory sector memory k = sector.byte k := if_pos hk
  have hread : (range deletedOffset).map
        (fun k => sectorInMemory sector memory (tombstoneSize * 0 + k)) =
      (range deletedOffset).map fun k => sector.byte (tombstoneSize * 0 + k) := by
    apply map_congr_left
    intro k hk
    have hlt : k < 256 := mem_range.mp hk
    exact hbyte _ (by omega)
  rw [tombstoneAt, tombstoneAt, hread, hbyte _ (by decide), hbyte _ (by decide)]

variable {memory : Nat → UInt8}

private theorem filterMap_tombstoneAt (sector : Sector) (h : Quiet memory) :
    (range maxTombstones).filterMap (tombstoneAt (sectorInMemory sector memory)) =
      (tombstoneAt sector.byte 0).toList := by
  have hrest (i : Nat) (hi : i + 1 < maxTombstones) :
      tombstoneAt (sectorInMemory sector memory) (i + 1) = none := by
    have hbehind : ¬ tombstoneSize * (i + 1) + deletedOffset < 512 := by
      unfold tombstoneSize deletedOffset
      omega
    rw [tombstoneAt, if_neg]
    rintro ⟨-, hflag⟩
    apply hflag
    rw [sectorInMemory, if_neg hbehind]
    exact h (i + 1) hi (Nat.succ_pos i)
  have hnone : ((range 59).map Nat.succ).filterMap
      (tombstoneAt (sectorInMemory sector memory)) = [] := by
    rw [filterMap_eq_nil_iff]
    intro i hi
    obtain ⟨k, hk, rfl⟩ := mem_map.mp hi
    exact hrest k (Nat.succ_lt_succ (mem_range.mp hk))
  rw [maxTombstones, range_succ_eq_map, filterMap_cons, hnone,
    tombstoneAt_sectorInMemory_zero]
  cases tombstoneAt sector.byte 0 with
  | none | some t => rfl

/-- The calls of a run. -/
inductive Request
  | markDeleted (path : CString)
  | undelete (path : CString)

/-- The path of a call. -/
def Request.path : Request → CString
  | .markDeleted path => path
  | .undelete path => path

/-- Perform one call. -/
def Request.run : Request → State → State
  | .markDeleted path, s => (fileResolverMarkDeleted path.val s).2
  | .undelete path, s => (fileResolverUndelete path.val s).2

/-- Calls in a row. -/
def follow (requests : List Request) (s : State) : State :=
  requests.foldl (fun s r => r.run s) s

/-- The disk and the heap answer, tombstones are proper and of different paths, and the first one is
on disk. -/
structure Kept (s : State) : Prop where
  faultless : s.claw.faults = noFaults
  heap : ∀ n, (s.heap n).isSome = true
  ok : ∀ t ∈ s.deletedFiles, t.Ok
  distinct : (s.deletedFiles.map Tombstone.path).Nodup
  first : tombstoneAt (s.claw.disk tombstoneSector).byte 0 = s.deletedFiles.head?

private theorem Kept.save (h : Kept s) (hok : ∀ t ∈ ts, t.Ok)
    (hdistinct : (ts.map Tombstone.path).Nodup) :
    Kept (fileResolverSaveTombstones { s with deletedFiles := ts }).2 := by
  have hsave := saveTombstones_faultless (s := { s with deletedFiles := ts }) h.faultless
  rw [if_pos (h.heap 0)] at hsave
  rw [hsave]
  refine ⟨h.faultless, fun n => h.heap (n + 1), hok, hdistinct, ?_⟩
  change tombstoneAt (writeDisk _ _ _ _).byte 0 = _
  rw [writeDisk_same]
  exact tombstoneAt_tombstoneImage hok

private theorem markFirst_eq {path : Bytes} (h : ∀ t ∈ ts, t.Ok) :
    markFirst path ts = if path ∈ ts.map Tombstone.path then some ts else none := by
  induction ts with
  | nil => rfl
  | cons t ts ih =>
    have hrest := ih fun u hu => h u (mem_cons_of_mem _ hu)
    rw [markFirst]
    split
    · next heq =>
      have hmarked : { t with deleted := true } = t := by
        rw [← (h t mem_cons_self).deleted]
      rw [hmarked, map_cons, heq, if_pos mem_cons_self]
    · next hne =>
      have hiff : path ∈ (t :: ts).map Tombstone.path ↔ path ∈ ts.map Tombstone.path := by
        rw [map_cons, mem_cons, or_iff_right fun heq => hne heq.symm]
      rw [hrest, if_congr hiff rfl rfl]
      split <;> rfl

private theorem Kept.markDeleted (h : Kept s) {path : CString} (hshort : path.val.length < deletedOffset) :
    Kept (fileResolverMarkDeleted path.val s).2 := by
  rw [fileResolverMarkDeleted, markFirst_eq h.ok]
  split
  · exact h
  next hne =>
  by_cases hmem : path.val ∈ s.deletedFiles.map Tombstone.path
  · rw [if_pos hmem]
    exact h.save h.ok h.distinct
  rw [if_neg hmem]
  dsimp only
  split
  · apply h.save
    · intro t ht
      rcases mem_append.mp ht with ht | ht
      · exact h.ok t ht
      · rw [mem_singleton.mp ht]
        exact ⟨rfl, hne, hshort, path.property⟩
    · rw [map_append, map_singleton, nodup_append_comm]
      exact nodup_cons.mpr ⟨hmem, h.distinct⟩
  · exact h

private theorem Kept.undelete (h : Kept s) (path : Bytes) : Kept (fileResolverUndelete path s).2 := by
  rw [fileResolverUndelete]
  split
  · have hsub := eraseP_sublist (p := (·.path == path)) (l := s.deletedFiles)
    exact h.save (fun t ht => h.ok t (hsub.subset ht)) (h.distinct.sublist (hsub.map _))
  · exact h

private theorem Kept.follow (h : Kept s) (requests : List Request)
    (hshort : ∀ r ∈ requests, r.path.val.length < deletedOffset) : Kept (follow requests s) := by
  apply foldl_invariant _ requests s h
  intro u r hr hu
  cases r with
  | markDeleted path => exact hu.markDeleted (hshort _ hr)
  | undelete path => exact hu.undelete path.val

/-- With memory and without flags behind the sector, the first tombstone on disk is loaded. -/
theorem loadTombstones_quiet (hdisk : s.claw.faults = noFaults) (hheap : s.heap 0 = some memory)
    (hquiet : Quiet memory) :
    (fileResolverLoadTombstones s).2 =
      { s with
        deletedFiles := (tombstoneAt (s.claw.disk tombstoneSector).byte 0).toList
        heap := fun n => s.heap (n + 1) } := by
  rw [loadTombstones_faultless hdisk, hheap]
  simp only [filterMap_tombstoneAt _ hquiet]

private theorem deletedFiles_init (hdisk : s.claw.faults = noFaults) (hheap : s.heap 0 = some memory)
    (hquiet : Quiet memory) :
    (fileResolverInit s).2 =
      { s with
        clawfsMounted := false
        deletedFiles := (tombstoneAt (s.claw.disk tombstoneSector).byte 0).toList
        heap := fun n => s.heap (n + 1) } :=
  loadTombstones_quiet hdisk hheap
    hquiet

private theorem tombstoneAt_ok {image : Nat → UInt8} (hread : tombstoneAt image 0 = some t)
    (hpath : ∃ k < deletedOffset, image k = 0) : t.Ok := by
  rw [tombstoneAt] at hread
  split at hread
  · next hcond =>
    cases hread
    rw [Nat.mul_zero] at hcond
    refine ⟨rfl, ?_, ?_, (cstring _).property⟩
    · change takeWhile (· != 0) _ ≠ []
      rw [deletedOffset, range_succ_eq_map, map_cons, takeWhile_cons_of_pos]
      · exact cons_ne_nil _ _
      · rw [bne_iff_ne]
        exact hcond.1
    · obtain ⟨k, hk, hzero⟩ := hpath
      have hsub := takeWhile_prefix (· != 0)
        (l := (range deletedOffset).map fun k => image (tombstoneSize * 0 + k))
      have hle := hsub.length_le
      rw [length_map, length_range] at hle
      apply Nat.lt_of_le_of_ne hle
      intro heq
      -- Without a zero the whole array would be taken.
      have hall := takeWhile_eq_self_iff.mp (hsub.eq_of_length (by simpa using heq))
      have hbyte := hall (image k) (mem_map.mpr ⟨k, mem_range.mpr hk, by
        rw [Nat.mul_zero, Nat.zero_add]⟩)
      rw [hzero] at hbyte
      cases hbyte
  · cases hread

private theorem kept_init (hdisk : s.claw.faults = noFaults) (hheap : ∀ n, (s.heap n).isSome = true)
    (hmemory : s.heap 0 = some memory) (hquiet : Quiet memory)
    (hpath : ∃ k < deletedOffset, (s.claw.disk tombstoneSector).byte k = 0) :
    Kept (fileResolverInit s).2 := by
  rw [deletedFiles_init hdisk hmemory hquiet]
  refine ⟨hdisk, fun n => hheap (n + 1), ?_, ?_, ?_⟩
  · intro t ht
    exact tombstoneAt_ok (Option.mem_toList.mp ht) hpath
  · cases tombstoneAt (s.claw.disk tombstoneSector).byte 0 with
    | none => exact nodup_nil
    | some t => exact nodup_singleton _
  · cases tombstoneAt (s.claw.disk tombstoneSector).byte 0 with
    | none | some t => rfl

private theorem isDeleted_iff (h : ∀ t ∈ s.deletedFiles, t.Ok) (path : Bytes) :
    fileResolverIsDeleted path s = true ↔ path ∈ s.deletedFiles.map Tombstone.path := by
  rw [fileResolverIsDeleted, Bool.and_eq_true, any_eq_true, mem_map]
  constructor
  · rintro ⟨-, t, ht, hpath⟩
    rw [Bool.and_eq_true, beq_iff_eq] at hpath
    exact ⟨t, ht, hpath.2⟩
  · rintro ⟨t, ht, rfl⟩
    have hok := h t ht
    refine ⟨?_, t, ht, ?_⟩
    · rw [Bool.not_eq_true', isEmpty_eq_false_iff]
      exact hok.nonempty
    · rw [hok.deleted, Bool.true_and, beq_iff_eq]

/-- After any run of `file_resolver_mark_deleted` and `file_resolver_undelete`, a reboot restores the
deleted paths exactly when at most one is left. -/
theorem tombstones_survive_iff (hdisk : s.claw.faults = noFaults)
    (hheap : ∀ n, (s.heap n).isSome = true) {memory : Nat → UInt8}
    (hmemory : s.heap 0 = some memory) (hquiet : Quiet memory)
    (hpath : ∃ k < deletedOffset, (s.claw.disk tombstoneSector).byte k = 0)
    (requests : List Request) (hshort : ∀ r ∈ requests, r.path.val.length < deletedOffset)
    (heap' : Nat → Option (Nat → UInt8)) {memory' : Nat → UInt8}
    (hmemory' : heap' 0 = some memory') (hquiet' : Quiet memory') :
    (∀ path : CString, fileResolverIsDeleted path.val
          (fileResolverInit (reboot heap' (follow requests (fileResolverInit s).2))).2 =
        fileResolverIsDeleted path.val (follow requests (fileResolverInit s).2)) ↔
      (follow requests (fileResolverInit s).2).deletedFiles.length ≤ 1 := by
  have hkept := (kept_init hdisk hheap hmemory hquiet hpath).follow requests hshort
  generalize follow requests (fileResolverInit s).2 = u at hkept
  have hdisk' : (reboot heap' u).claw.faults = noFaults := hkept.faultless
  have hinit := deletedFiles_init hdisk' hmemory' hquiet'
  have hfirst : tombstoneAt ((reboot heap' u).claw.disk tombstoneSector).byte 0 =
      u.deletedFiles.head? := hkept.first
  rw [hfirst] at hinit
  have hok : ∀ t ∈ u.deletedFiles.head?.toList, t.Ok :=
    fun t ht => hkept.ok t (mem_of_mem_head? (Option.mem_toList.mp ht))
  have hafter (path : Bytes) : fileResolverIsDeleted path (fileResolverInit (reboot heap' u)).2 =
      true ↔ path ∈ u.deletedFiles.head?.toList.map Tombstone.path := by
    rw [hinit]
    exact isDeleted_iff hok path
  have hbefore := isDeleted_iff hkept.ok
  have hdistinct := hkept.distinct
  have hstring (t : Tombstone) (ht : t ∈ u.deletedFiles) := (hkept.ok t ht).string
  generalize u.deletedFiles = ts at *
  match ts with
  | [] =>
    refine ⟨fun _ => Nat.zero_le _, fun _ path => ?_⟩
    rw [Bool.eq_iff_iff, hafter, hbefore]
    rfl
  | [t] =>
    refine ⟨fun _ => le_rfl, fun _ path => ?_⟩
    rw [Bool.eq_iff_iff, hafter, hbefore]
    rfl
  | t :: t' :: rest =>
    -- The second path is gone.
    constructor
    · intro hsame
      have hpath := (hbefore t'.path).mpr (by simp)
      rw [← hsame ⟨t'.path, hstring t' (by simp)⟩, hafter] at hpath
      simp only [head?_cons, Option.toList_some, map_singleton,
        mem_singleton] at hpath
      simp [hpath] at hdistinct
    · intro hle
      simp at hle

/-- A disk and a heap of zeros. -/
def blankState : State := ⟨blank, false, [], fun _ => some fun _ => 0⟩

/-- Memory of zeros has no flags. -/
theorem quiet_zero : Quiet fun _ => 0 := fun _ _ _ => rfl

/-- A command. -/
def firstCommand : CString := cstring (ascii ['/', 'b', 'i', 'n', '/', 'a'])

/-- Another command. -/
def secondCommand : CString := cstring (ascii ['/', 'b', 'i', 'n', '/', 'b'])

/-- One tombstone survives a reboot. -/
theorem tombstones_survive_iff_one :
    (follow [.markDeleted firstCommand] (fileResolverInit blankState).2).deletedFiles.length = 1 ∧
      fileResolverIsDeleted firstCommand.val (fileResolverInit (reboot blankState.heap
        (follow [.markDeleted firstCommand] (fileResolverInit blankState).2))).2 = true := by
  have hlength : (follow [.markDeleted firstCommand]
      (fileResolverInit blankState).2).deletedFiles.length = 1 := by decide
  have hpath : ∃ k < deletedOffset, (blankState.claw.disk tombstoneSector).byte k = 0 :=
    ⟨0, by decide, rfl⟩
  have hshort : ∀ r ∈ [Request.markDeleted firstCommand], r.path.val.length < deletedOffset := by
    decide
  have hrestored := (tombstones_survive_iff rfl (fun _ => rfl) rfl quiet_zero hpath
    [.markDeleted firstCommand] hshort blankState.heap rfl quiet_zero).mpr
    (Nat.le_of_eq hlength) firstCommand
  refine ⟨hlength, hrestored.trans ?_⟩
  decide

/-- Of two deleted commands, the second is back after a reboot. -/
theorem second_tombstone_lost :
    fileResolverIsDeleted secondCommand.val (follow
        [.markDeleted firstCommand, .markDeleted secondCommand] (fileResolverInit blankState).2) =
      true ∧
      fileResolverIsDeleted secondCommand.val (fileResolverInit (reboot blankState.heap (follow
        [.markDeleted firstCommand, .markDeleted secondCommand]
        (fileResolverInit blankState).2))).2 = false := by
  decide

end NasuaOS.Resolver
