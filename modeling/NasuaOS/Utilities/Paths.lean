import NasuaOS.ClawFS.Paths

/-!
# Normal forms of paths

`src/utilities/system_functions/cd/cd.cpp:31–95`, `tree/tree.cpp:91–153` and
`src/utilities/applications/WebBrowser/src/WebBrowser.cpp:4823–4893`. A path names a stack of
components: `.` leaves it, `..` pops it, every other name is pushed. `cd` and `tree` copy the path,
collect the components in an array and join them; the arrays differ in size. The browser writes the
components as it reads them, remembers where each of them starts, and cuts the text for `..`.
-/

namespace NasuaOS.Utilities

open Base Libc Fat ClawFS List

/-- The component that stays where it is. -/
def dot : Bytes := ascii ['.']

/-- The component that goes up. -/
def dotDot : Bytes := ascii ['.', '.']

/-- One component of a path; the innermost name of the stack comes first. -/
def enter (stack : List Bytes) (name : Bytes) : List Bytes :=
  if name = dot then stack else if name = dotDot then stack.tail else name :: stack

/-- The stack a path leads to from the root. -/
def resolve (path : Bytes) : List Bytes := (pathNames path).foldl enter []

/-- A stack as an absolute path. -/
def absolute (stack : List Bytes) : Bytes := slash :: [slash].intercalate stack.reverse

/-- Every stack on the way passes a test. -/
def stays (fits : List Bytes → Bool) (stack : List Bytes) : List Bytes → Bool
  | [] => true
  | name :: rest => fits (enter stack name) && stays fits (enter stack name) rest

/-- The piece between two slashes: left out, a step up, or one component more in the array. -/
def keepPart (limit : Nat) (parts : List Bytes) (start : Bytes) :
    Reading (List Bytes) :=
  if start = dot ∨ start = [] then .ok parts
  else if start = dotDot then .ok parts.tail
  else if limit ≤ parts.length then .error .outOfBounds
  else .ok (start :: parts)

/-- The functions `normalize_path`, with an array of `limit` components and a copy of 256 bytes. -/
def normalizePath (limit : Nat) (input : Bytes) : Reading Bytes :=
  if 256 ≤ input.length then .error .outOfBounds
  else
    let p := if input.head? = some slash then input.tail else input
    ((p.splitOn slash).foldlM (keepPart limit) []).map fun parts =>
      slash :: [slash].intercalate parts.reverse

/-- `normalize_path` of `cd`. -/
def Cd.normalizePath : Bytes → Reading Bytes := Utilities.normalizePath 64

/-- `normalize_path` of `tree`. -/
def Tree.normalizePath : Bytes → Reading Bytes := Utilities.normalizePath 32

/-- The components of a stack fit in an array. -/
def held (limit : Nat) (stack : List Bytes) : Bool := stack.length ≤ limit

/-- A path is normalized as the stack says, and the result to itself. -/
def Normalizes (normalize : Bytes → Reading Bytes) (path : Bytes) : Prop :=
  normalize path = .ok (absolute (resolve path)) ∧
    normalize (absolute (resolve path)) = .ok (absolute (resolve path))

variable {limit capacity : Nat} {fits : List Bytes → Bool} {stack names : List Bytes}
  {name path : Bytes}

/-- A component as it stands in a normal form. -/
structure Plain (name : Bytes) : Prop where
  ne_nil : name ≠ []
  slash : slash ∉ name
  dot : name ≠ dot
  dotDot : name ≠ dotDot

private theorem stays_last (h : stays fits stack names = true) (hstack : fits stack = true) :
    fits (names.foldl enter stack) = true := by
  induction names generalizing stack with
  | nil => exact hstack
  | cons name rest ih => grind [stays]

private theorem plain_foldl_enter (h : ∀ name ∈ names, name ≠ [] ∧ slash ∉ name)
    (hstack : ∀ name ∈ stack, Plain name) : ∀ name ∈ names.foldl enter stack, Plain name := by
  induction names generalizing stack with
  | nil => exact hstack
  | cons name rest ih =>
    refine ih (fun n hn => h n (mem_cons_of_mem _ hn)) ?_
    have hplain : name ≠ Utilities.dot → name ≠ Utilities.dotDot → Plain name := by
      obtain ⟨hne, hslash⟩ := h name mem_cons_self
      exact Plain.mk hne hslash
    grind [enter, mem_of_mem_tail]

private theorem pathNames_plain (path : Bytes) :
    ∀ name ∈ pathNames path, name ≠ [] ∧ slash ∉ name := by
  intro name hname
  rw [← components_eq] at hname
  obtain ⟨hne, hslash, -⟩ := components_names path name hname
  exact ⟨hne, hslash⟩

private theorem enter_all (htail : ∀ stack, fits stack = true → fits stack.tail = true)
    (h : ∀ name ∈ names, Plain name) (hfits : fits (names.reverse ++ stack) = true) :
    names.foldl enter stack = names.reverse ++ stack ∧ stays fits stack names = true := by
  induction names generalizing stack with
  | nil => exact ⟨rfl, rfl⟩
  | cons name rest ih =>
    have hplain := h name mem_cons_self
    have hone : enter stack name = name :: stack := by grind [enter, Plain]
    have hhere (above : List Bytes) : fits (above ++ name :: stack) = true →
        fits (name :: stack) = true := by
      induction above with
      | nil => exact id
      | cons _ _ ih => exact fun hmore => ih (htail _ hmore)
    grind [stays]

private theorem intercalate_concat (h : names ≠ []) :
    [slash].intercalate (names ++ [name]) = [slash].intercalate names ++ slash :: name := by
  induction names with
  | nil => exact absurd rfl h
  | cons first rest ih =>
    cases rest with
    | nil => simp
    | cons second rest =>
      have hne := cons_ne_nil second
      rw [cons_append, cons_append, intercalate_cons_of_ne_nil (hne _),
        ← cons_append, ih (hne _), intercalate_cons_of_ne_nil (hne rest),
        ← append_assoc]

/-- The text before the next component. -/
def opened (stack : List Bytes) : Bytes :=
  (if stack = [] then [] else absolute stack) ++ [slash]

private theorem absolute_cons (name : Bytes) (stack : List Bytes) :
    absolute (name :: stack) = opened stack ++ name := by
  cases stack with
  | nil => simp [absolute, opened]
  | cons inner rest =>
    rw [absolute, reverse_cons, intercalate_concat (by simp), opened,
      if_neg (cons_ne_nil _ _), append_assoc]
    rfl

private theorem pathNames_absolute (h : ∀ name ∈ stack, Plain name) :
    pathNames (absolute stack) = stack.reverse := by
  induction stack with
  | nil => decide
  | cons name rest ih =>
    have hplain := h name mem_cons_self
    rw [absolute_cons, opened, append_assoc, singleton_append, pathNames_append_slash,
      pathNames_name hplain.ne_nil hplain.slash, reverse_cons]
    split
    · next hnil => rw [hnil]; rfl
    · rw [ih fun n hn => h n (mem_cons_of_mem _ hn)]

private theorem resolve_absolute (htail : ∀ stack, fits stack = true → fits stack.tail = true)
    (h : fits (resolve path) = true) : resolve (absolute (resolve path)) = resolve path ∧
      stays fits [] (pathNames (absolute (resolve path))) = true := by
  have hplain : ∀ name ∈ resolve path, Plain name :=
    plain_foldl_enter (pathNames_plain path) (by simp)
  have hall := @enter_all fits [] (resolve path).reverse htail (by simpa using hplain)
    (by simpa using h)
  rw [reverse_reverse, append_nil] at hall
  rwa [resolve, pathNames_absolute hplain]

private theorem keepPart_eq {parts : List Bytes} (h : parts.length ≤ limit) (start : Bytes) :
    keepPart limit parts start = if start = [] then .ok parts
      else if (enter parts start).length ≤ limit then .ok (enter parts start)
      else .error .outOfBounds := by
  grind [keepPart, enter]

private theorem foldlM_keepPart {pieces parts : List Bytes} (h : parts.length ≤ limit) :
    pieces.foldlM (keepPart limit) parts = if stays (held limit) parts (pieces.filter (· ≠ [])) then
        .ok ((pieces.filter (· ≠ [])).foldl enter parts) else .error .outOfBounds := by
  induction pieces generalizing parts with
  | nil => rfl
  | cons start rest ih =>
    rw [foldlM_cons, keepPart_eq h]
    by_cases hnil : start = []
    · rw [if_pos hnil, filter_cons_of_neg (by simpa using hnil)]
      exact ih h
    rw [if_neg hnil, filter_cons_of_pos (by simpa using hnil), stays, foldl_cons]
    by_cases hroom : (enter parts start).length ≤ limit
    · rw [if_pos hroom, held, decide_eq_true hroom]
      exact ih hroom
    · rw [if_neg hroom, held, decide_eq_false hroom]
      rfl

private theorem normalizePath_eq_ok_iff {input output : Bytes} :
    normalizePath limit input = .ok output ↔ input.length < 256 ∧
      stays (held limit) [] (pathNames input) = true ∧ absolute (resolve input) = output := by
  have hnames : pathNames (if input.head? = some slash then input.tail else input) =
      pathNames input := by
    split
    · next h =>
      obtain ⟨rest, rfl⟩ := head?_eq_some_iff.mp h
      exact (pathNames_append_slash [] rest).symm
    · rfl
  have hloop (pieces : List Bytes) :=
    @foldlM_keepPart limit pieces [] (Nat.zero_le limit)
  simp only [normalizePath, hloop]
  rw [← pathNames, hnames]
  split
  · simp
    omega
  · next hshort =>
    split
    · next hstays => simp [hstays, Except.map, absolute, resolve, Nat.lt_of_not_le hshort]
    · next hstays => simp [hstays, Except.map]

private theorem normalizes_iff (h : path.length < 256) : Normalizes (normalizePath limit) path ↔
      stays (held limit) [] (pathNames path) = true ∧ (absolute (resolve path)).length < 256 := by
  rw [Normalizes, normalizePath_eq_ok_iff, normalizePath_eq_ok_iff]
  constructor
  · exact fun ⟨hfirst, hsecond⟩ => ⟨hfirst.2.1, hsecond.1⟩
  · rintro ⟨hstays, hlength⟩
    obtain ⟨hresolve, hagain⟩ :=
      resolve_absolute (by grind [held]) (stays_last hstays (by simp [held]))
    exact ⟨⟨h, hstays, rfl⟩, hlength, hagain, congrArg absolute hresolve⟩

/-- Both functions normalize a path, with valid indices, exactly if their arrays hold every stack on
the way and the result is again shorter than the copy. -/
theorem normalize_path_iff (path : CString) (h : path.val.length < 256) :
    (Normalizes Cd.normalizePath path.val ↔
      stays (held 64) [] (pathNames path.val) = true ∧ (absolute (resolve path.val)).length < 256) ∧
    (Normalizes Tree.normalizePath path.val ↔
      stays (held 32) [] (pathNames path.val) = true ∧ (absolute (resolve path.val)).length < 256) :=
  ⟨normalizes_iff h, normalizes_iff h⟩

/-- A path that goes down and up again. -/
theorem normalize_path_iff_upAndDown :
    Normalizes Cd.normalizePath (ascii ['/', 'a', '/', '.', '/', '.', '.', '/', '/', 'b']) ∧
      Normalizes Tree.normalizePath (ascii ['/', 'a', '/', '.', '/', '.', '.', '/', '/', 'b']) := by
  have h := normalize_path_iff ⟨ascii ['/', 'a', '/', '.', '/', '.', '.', '/', '/', 'b'], by decide⟩
    (by decide)
  exact ⟨h.1.mpr (by decide), h.2.mpr (by decide)⟩

/-- With 65 directories below each other both functions write behind their arrays. -/
theorem normalize_path_leaves_array : ((replicate 65 [slash, 97]).flatten).length < 256 ∧
    Cd.normalizePath (replicate 65 [slash, 97]).flatten = .error .outOfBounds ∧
    Tree.normalizePath (replicate 65 [slash, 97]).flatten = .error .outOfBounds := by
  decide +kernel

/-- The text that is written, and where its components start, the innermost first. -/
structure Draft where
  output : Bytes
  starts : List Nat

/-- Append bytes while room for the terminator is left; `none` when the function returns false. -/
def copyBytes (capacity : Nat) : Bytes → Bytes → Option Bytes
  | [], output => some output
  | c :: name, output =>
    if capacity - 1 ≤ output.length then none else copyBytes capacity name (output ++ [c])

/-- The component `..`: the text ends where the last component started, without the slash before
it. -/
def dropSegment (capacity root : Nat) (draft : Draft) : Reading (Option Draft) :=
  match draft.starts with
  | [] => .ok (some draft)
  | start :: starts =>
    let length := if root < start ∧ draft.output[start - 1]? = some slash then start - 1 else start
    if length < capacity then .ok (some ⟨draft.output.take length, starts⟩)
    else .error .outOfBounds

/-- A component that is kept. -/
def addSegment (capacity : Nat) (draft : Draft) (name : Bytes) : Reading (Option Draft) :=
  if 128 ≤ draft.starts.length then .ok none
  else
    let separator := if draft.output ≠ [] ∧ draft.output.getLast? ≠ some slash then [slash] else []
    match copyBytes capacity separator draft.output with
    | none => .ok none
    | some output =>
      match copyBytes capacity name output with
      | none => .ok none
      | some named =>
        if named.length < capacity then .ok (some ⟨named, output.length :: draft.starts⟩)
        else .error .outOfBounds

/-- A component of the path; `root` is the length of the leading slash. -/
def enterSegment (capacity root : Nat) (draft : Draft) (name : Bytes) :
    Reading (Option Draft) :=
  if name = dot then .ok (some draft)
  else if name = dotDot then dropSegment capacity root draft
  else addSegment capacity draft name

/-- The loop over the components. -/
def enterSegments (capacity root : Nat) : List Bytes → Draft → Reading (Option Draft)
  | [], draft => .ok (some draft)
  | name :: rest, draft => do
    match ← enterSegment capacity root draft name with
    | none => return none
    | some draft => enterSegments capacity root rest draft

/-- `browser_normalize_local_path`; `none` when it returns false. -/
def browserNormalizeLocalPath (path : Bytes) (capacity : Nat) :
    Reading (Option Bytes) := do
  let start := if path.head? = some slash then [slash] else []
  if capacity < start.length then throw .outOfBounds
  match ← enterSegments capacity start.length (pathNames path) ⟨start, []⟩ with
  | none => return none
  | some draft =>
    let output := if draft.output = [] then if start = [] then dot else [slash] else draft.output
    if output.length < capacity then return some output else throw .outOfBounds

/-- The text and the components of a stack fit. -/
def fitsLocal (capacity : Nat) (stack : List Bytes) : Bool :=
  stack.length ≤ 128 && (absolute stack).length < capacity

/-- Where the components of a stack start. -/
def startsOf : List Bytes → List Nat
  | [] => []
  | _ :: stack => (opened stack).length :: startsOf stack

/-- What the browser holds for a stack. -/
def draftOf (stack : List Bytes) : Draft := ⟨absolute stack, startsOf stack⟩

private theorem length_startsOf (stack : List Bytes) : (startsOf stack).length = stack.length := by
  induction stack with
  | nil => rfl
  | cons _ _ ih => rw [startsOf, length_cons, ih, length_cons]

private theorem fitsLocal_root (h : 2 ≤ capacity) : fitsLocal capacity [] = true := by
  simp [fitsLocal, absolute]
  omega

private theorem fitsLocal_tail (stack : List Bytes) (h : fitsLocal capacity stack = true) :
    fitsLocal capacity stack.tail = true := by
  have hroot : absolute [] = [slash] := by decide
  cases stack <;> grind [fitsLocal, absolute_cons, opened]

private theorem copyBytes_eq (bytes output : Bytes) (h : output.length < capacity) :
    copyBytes capacity bytes output =
      if (output ++ bytes).length < capacity then some (output ++ bytes) else none := by
  induction bytes generalizing output with
  | nil => rw [copyBytes, append_nil, if_pos h]
  | cons c bytes ih => grind [copyBytes]

private theorem dropSegment_eq (h : fitsLocal capacity stack = true) :
    dropSegment capacity 1 (draftOf stack) = .ok (some (draftOf stack.tail)) := by
  cases stack with
  | nil => rfl
  | cons name rest =>
    have hrest := fitsLocal_tail _ h
    have hlength : (absolute rest).length < capacity := by grind [fitsLocal]
    by_cases hnil : rest = []
    · simp_all [dropSegment, draftOf, startsOf, opened, absolute]
    · have hlong : 1 < (absolute rest).length + 1 := by simp [absolute]
      simp [dropSegment, draftOf, startsOf, absolute_cons, opened, hnil, hlength, hlong]

private theorem addSegment_eq (h : fitsLocal capacity stack = true) (hplain : ∀ name ∈ stack, Plain name) :
    addSegment capacity (draftOf stack) name =
      .ok (if fitsLocal capacity (name :: stack) then some (draftOf (name :: stack)) else none) := by
  have hopened : absolute stack ++ (if absolute stack ≠ [] ∧ (absolute stack).getLast? ≠ some slash
      then [slash] else []) = opened stack := by
    cases stack with
    | nil => decide
    | cons name rest =>
      have h := hplain name mem_cons_self
      have hlast : (absolute (name :: rest)).getLast? ≠ some slash := by
        rw [absolute_cons, getLast?_append_of_ne_nil _ h.ne_nil]
        exact fun hlast => h.slash (mem_of_getLast? hlast)
      rw [if_pos ⟨cons_ne_nil _ _, hlast⟩, opened, if_neg (cons_ne_nil _ _)]
  have hlength : (absolute stack).length < capacity := by grind [fitsLocal]
  simp only [addSegment, draftOf, length_startsOf, copyBytes_eq _ _ hlength]
  grind [fitsLocal, absolute_cons, copyBytes_eq, startsOf]

private theorem enterSegments_eq (h : ∀ name ∈ names, name ≠ [] ∧ slash ∉ name)
    (hfits : fitsLocal capacity stack = true) (hplain : ∀ name ∈ stack, Plain name) :
    enterSegments capacity 1 names (draftOf stack) =
      .ok (if stays (fitsLocal capacity) stack names then some (draftOf (names.foldl enter stack))
        else none) := by
  induction names generalizing stack with
  | nil => rfl
  | cons name rest ih =>
    have hone := @plain_foldl_enter stack [name] (by grind) hplain
    have hnext : enterSegment capacity 1 (draftOf stack) name = .ok (if fitsLocal capacity
        (enter stack name) then some (draftOf (enter stack name)) else none) := by
      have hup := fitsLocal_tail stack hfits
      grind [enterSegment, dropSegment_eq, addSegment_eq, enter]
    rw [enterSegments, hnext, stays, foldl_cons]
    by_cases hroom : fitsLocal capacity (enter stack name) = true
    · rw [if_pos hroom, hroom]
      exact ih (fun n hn => h n (mem_cons_of_mem _ hn)) hroom hone
    · rw [if_neg hroom, Bool.not_eq_true _ |>.mp hroom]
      rfl

private theorem browserNormalizeLocalPath_eq (hcapacity : 2 ≤ capacity) (hpath : path.head? = some slash) :
    browserNormalizeLocalPath path capacity =
      .ok (if stays (fitsLocal capacity) [] (pathNames path) then some (absolute (resolve path))
        else none) := by
  have hroot := fitsLocal_root hcapacity
  have hloop := enterSegments_eq (pathNames_plain path) hroot (by simp)
  simp only [browserNormalizeLocalPath, hpath, if_true]
  rw [if_neg (by simp; omega)]
  change (enterSegments capacity 1 (pathNames path) (draftOf []) >>= _) = _
  rw [hloop]
  by_cases hstays : stays (fitsLocal capacity) [] (pathNames path) = true
  · have hlast : (absolute (resolve path)).length < capacity := by
      grind [stays_last hstays hroot, fitsLocal, resolve]
    rw [if_pos hstays, if_pos hstays]
    exact if_pos hlast
  · rw [if_neg hstays, if_neg hstays]
    rfl

/-- For every absolute path the browser writes the normal form, within the capacity, unless a stack
on the way does not fit; a normal form stays as it is. -/
theorem browser_normalize_local_path (path : CString) (hpath : path.val.head? = some slash)
    (hcapacity : 2 ≤ capacity) :
    browserNormalizeLocalPath path.val capacity =
      .ok (if stays (fitsLocal capacity) [] (pathNames path.val) then
        some (absolute (resolve path.val)) else none) ∧
    ∀ output, browserNormalizeLocalPath path.val capacity = .ok (some output) →
      browserNormalizeLocalPath output capacity = .ok (some output) := by
  have heq := browserNormalizeLocalPath_eq hcapacity hpath
  refine ⟨heq, fun output houtput => ?_⟩
  rw [heq] at houtput
  split at houtput
  · next hstays =>
    cases houtput
    have hlast := stays_last hstays (fitsLocal_root hcapacity)
    obtain ⟨hresolve, hagain⟩ := resolve_absolute fitsLocal_tail hlast
    rw [browserNormalizeLocalPath_eq hcapacity rfl, if_pos hagain, hresolve]
  · cases houtput

/-- Ten bytes hold every text on the way. -/
theorem browser_normalize_local_path_upAndDown :
    browserNormalizeLocalPath (ascii ['/', 'a', '/', '.', '/', '.', '.', '/', '/', 'b']) 10 =
      .ok (some (ascii ['/', 'b'])) := by
  have h := browser_normalize_local_path
    ⟨ascii ['/', 'a', '/', '.', '/', '.', '.', '/', '/', 'b'], by decide⟩ rfl (by decide : 2 ≤ 10)
  exact h.1.trans (by decide)

end NasuaOS.Utilities
