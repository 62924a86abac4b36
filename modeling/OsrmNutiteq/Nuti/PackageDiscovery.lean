import Mathlib.Data.List.Nodup
import Mathlib.Algebra.Group.Nat.Basic
import Mathlib.Algebra.Group.Int

/-! # Package discovery in the `NutiViaRoutePlugin` constructor

A `std::string` is a sequence of bytes, here a `List UInt8` holding the UTF-8 encoding of the
path. Both the suffix test and the skip test read the whole path, directory part included
(`package_selection_reads_full_path`); the directory listing is an input.
-/
namespace OsrmNutiteq.Nuti

/-- The bytes of a string literal, as a `std::string` holds them. -/
def utf8 (s : String) : List UInt8 := s.toUTF8.data.toList

def dash : UInt8 := 45

def slash : UInt8 := 47

/-- `std::string::npos`, the largest `size_t`. -/
def npos : Nat := 2 ^ 64 - 1

/-- `a - b` on `size_t`, which wraps modulo `2 ^ 64`. -/
def sizeSub (a b : Nat) : Nat := (((a : Int) - b) % 2 ^ 64).toNat

def rfindFrom (pat : List UInt8) : List UInt8 → Nat → Option Nat
  | [], k => if pat = [] then some k else none
  | c :: cs, k =>
    match rfindFrom pat cs (k + 1) with
    | some j => some j
    | none => if pat <+: c :: cs then some k else none

/-- `s.rfind(pat)`: the last position at which `pat` occurs in `s`, or `npos`. -/
def rfind (s pat : List UInt8) : Nat := (rfindFrom pat s 0).getD npos

/-- `s.find(c)`: the first position of `c` in `s`, or `npos`. -/
def find (s : List UInt8) (c : UInt8) : Nat := if c ∈ s then s.indexOf c else npos

def substr (s : List UInt8) (n : Nat) : List UInt8 := s.take n

def nutigraphExtension : List UInt8 := utf8 ".nutigraph"

/-- A directory entry: its name, which holds no `/`, and whether `fs::is_regular_file` holds
of its status. -/
structure DirEntry where
  name : List UInt8
  isRegularFile : Bool
  deriving DecidableEq, Repr

/-- What `base_path / name` puts before the entry's name: the directory's path, followed by
a `/` unless it is empty or already ends in one. -/
def dirPrefix (base : List UInt8) : List UInt8 :=
  if base = [] ∨ base.getLast? = some slash then base else base ++ [slash]

/-- `dir_iter->path().string()`. -/
def entryPath (base name : List UInt8) : List UInt8 := dirPrefix base ++ name

/-- `std::less<std::string>`: byte by byte, as `unsigned char`, a proper prefix first. -/
def strLess : List UInt8 → List UInt8 → Bool
  | [], [] => false
  | [], _ :: _ => true
  | _ :: _, [] => false
  | a :: as, b :: bs => Nat.blt a.toNat b.toNat || (Nat.beq a.toNat b.toNat && strLess as bs)

/-- `std::set<std::string>::insert`: the set is kept in order and without repeats. -/
def setInsert (x : List UInt8) : List (List UInt8) → List (List UInt8)
  | [] => [x]
  | y :: ys =>
    if strLess x y then x :: y :: ys else if x = y then y :: ys else y :: setInsert x ys

/-- The suffix test of the first loop. -/
def isPackagePath (fileName : List UInt8) : Bool :=
  rfind fileName nutigraphExtension == sizeSub fileName.length 10

def addPackageFile (base : List UInt8) (files : List (List UInt8)) (e : DirEntry) :
    List (List UInt8) :=
  if e.isRegularFile && isPackagePath (entryPath base e.name) then
    setInsert (substr (entryPath base e.name) (sizeSub (entryPath base e.name).length 10)) files
  else files

/-- The first loop: the set `nutigraph_files` built from the listing of `base`. -/
def packageFiles (base : List UInt8) (entries : List DirEntry) : List (List UInt8) :=
  entries.foldl (addPackageFile base) []

inductive LoadEvent where
  /-- "Skipping `file` as `parent` exists" -/
  | skipping (file parent : List UInt8)
  /-- "Loading `file`", then `routing_graph->import(file)` -/
  | loading (file : List UInt8)
  /-- "Failed to load `file`: `what`", when `import` raised -/
  | failedToLoad (file : List UInt8) (what : String)
  deriving DecidableEq, Repr

/-- Whether the second loop skips `file`: a `-` occurs in it, and the part before the first
one is in the set. -/
def skipsFile (files : List (List UInt8)) (file : List UInt8) : Bool :=
  find file dash != npos && substr file (find file dash) ∈ files

/-- The second loop over the set `files`, from `rest` on; `importGraph` is what
`routing_graph->import` returns or raises. -/
def loadLoop (importGraph : List UInt8 → Except String Bool) (files : List (List UInt8)) :
    List (List UInt8) → List LoadEvent
  | [] => []
  | file :: rest =>
    if skipsFile files file then
      .skipping (file ++ nutigraphExtension) (substr file (find file dash) ++ nutigraphExtension) ::
        loadLoop importGraph files rest
    else
      .loading (file ++ nutigraphExtension) ::
        ((match importGraph (file ++ nutigraphExtension) with
          | .error what => [.failedToLoad (file ++ nutigraphExtension) what]
          | .ok _ => []) ++ loadLoop importGraph files rest)

/-- The constructor's discovery and import over the listing `entries` of `base`. -/
def loadPackages (importGraph : List UInt8 → Except String Bool) (base : List UInt8)
    (entries : List DirEntry) : List LoadEvent :=
  loadLoop importGraph (packageFiles base entries) (packageFiles base entries)

def importCalls : List LoadEvent → List (List UInt8)
  | [] => []
  | .loading file :: es => file :: importCalls es
  | _ :: es => importCalls es

def regionEntries : List DirEntry :=
  [⟨utf8 "estonia.nutigraph", true⟩, ⟨utf8 "estonia-tallinn.nutigraph", true⟩]

/-- In a directory spelled without a `-` the sub-package is skipped; in one spelled with a
`-` it is imported as well. And in `.`, the regular file `LICENSE`, whose path `./LICENSE`
has 9 bytes, is imported as `./LICENSE.nutigraph`. -/
theorem package_selection_reads_full_path :
    importCalls (loadPackages (fun _ => .ok true) (utf8 "/srv/osmdata") regionEntries) =
        [utf8 "/srv/osmdata/estonia.nutigraph"] ∧
      importCalls (loadPackages (fun _ => .ok true) (utf8 "/srv/osm-data") regionEntries) =
        [utf8 "/srv/osm-data/estonia.nutigraph", utf8 "/srv/osm-data/estonia-tallinn.nutigraph"] ∧
      importCalls (loadPackages (fun _ => .ok true) (utf8 ".") [⟨utf8 "LICENSE", true⟩]) =
        [utf8 "./LICENSE.nutigraph"] :=
  ⟨by decide, by decide, by decide⟩

/-! ## The suffix test -/

theorem sizeSub_of_le {a b : Nat} (h : b ≤ a) (ha : a < 2 ^ 64) : sizeSub a b = a - b := by
  unfold sizeSub
  omega

theorem sizeSub_of_lt {a b : Nat} (h : a < b) (hb : b ≤ 2 ^ 64) :
    sizeSub a b = 2 ^ 64 - (b - a) := by
  unfold sizeSub
  omega

theorem rfindFrom_sound {pat : List UInt8} :
    ∀ {s : List UInt8} {k j : Nat}, rfindFrom pat s k = some j → k ≤ j ∧ pat <+: s.drop (j - k)
  | [], k, j, h => by
    unfold rfindFrom at h
    split at h
    · cases h
      simp_all
    · cases h
  | c :: cs, k, j, h => by
    unfold rfindFrom at h
    split at h
    next j' hj =>
      rw [← Option.some.inj h]
      obtain ⟨hk, hp⟩ := rfindFrom_sound hj
      refine ⟨by omega, ?_⟩
      rwa [show j' - k = j' - (k + 1) + 1 by omega, List.drop_succ_cons]
    next =>
      split at h
      · cases h
        simpa
      · cases h

theorem rfindFrom_complete {pat : List UInt8} :
    ∀ {s : List UInt8} {k i : Nat}, pat <+: s.drop i → i ≤ s.length →
      ∃ j, rfindFrom pat s k = some j ∧ k + i ≤ j
  | [], k, i, hp, hi => by
    obtain rfl : i = 0 := by simpa using hi
    exact ⟨k, by simp_all [rfindFrom], le_refl _⟩
  | c :: cs, k, i, hp, hi => by
    unfold rfindFrom
    cases i with
    | zero =>
      split
      next j hj => exact ⟨j, rfl, by have := (rfindFrom_sound hj).1; omega⟩
      next => exact ⟨k, by simpa using hp, le_refl _⟩
    | succ i =>
      obtain ⟨j, hj, hkj⟩ := @rfindFrom_complete pat cs (k + 1) i (by simpa using hp)
        (by simpa using hi)
      rw [hj]
      exact ⟨j, rfl, by omega⟩

theorem length_nutigraphExtension : nutigraphExtension.length = 10 := rfl

/-- On a path of fewer than `2 ^ 64` bytes and other than 9, the suffix test holds
exactly of the paths that end in `.nutigraph`. -/
theorem isPackagePath_iff {s : List UInt8} (h9 : s.length ≠ 9) (hlt : s.length < 2 ^ 64) :
    isPackagePath s = true ↔ nutigraphExtension <:+ s := by
  have hsound : ∀ j, rfindFrom nutigraphExtension s 0 = some j → j + 10 ≤ s.length := by
    intro j hj
    have := (rfindFrom_sound hj).2.length_le
    simp only [List.length_drop, length_nutigraphExtension, Nat.sub_zero] at this
    have := (rfindFrom_sound hj).2
    omega
  unfold isPackagePath rfind
  by_cases hs : s.length < 10
  · have hnone : rfindFrom nutigraphExtension s 0 = none := by
      cases h : rfindFrom nutigraphExtension s 0 with
      | none => rfl
      | some j => have := hsound j h; omega
    rw [hnone, sizeSub_of_lt hs (by omega)]
    refine ⟨fun h => ?_, fun h => absurd h.length_le (by rw [length_nutigraphExtension]; omega)⟩
    simp only [Option.getD_none, npos, beq_iff_eq] at h
    omega
  rw [sizeSub_of_le (by omega) hlt, List.suffix_iff_eq_drop, length_nutigraphExtension]
  constructor
  · intro h
    cases hj : rfindFrom nutigraphExtension s 0 with
    | none => simp only [hj, Option.getD_none, npos, beq_iff_eq] at h; omega
    | some j =>
      simp only [hj, Option.getD_some, beq_iff_eq] at h
      subst h
      exact ((rfindFrom_sound hj).2.eq_of_length (by simp [length_nutigraphExtension]; omega))
  · intro h
    obtain ⟨j, hj, hle⟩ := @rfindFrom_complete _ s 0 (s.length - 10)
      (h ▸ List.prefix_refl _ : nutigraphExtension <+: s.drop (s.length - 10)) (by omega)
    have := hsound j hj
    simp only [hj, Option.getD_some, beq_iff_eq]
    omega

/-- The 9-byte path `./Łódź`, of 6 characters, passes the suffix test. -/
example : isPackagePath (entryPath (utf8 ".") (utf8 "Łódź")) = true := by decide

/-! ## Paths and file names -/

theorem dirPrefix_empty_or_slash (base : List UInt8) :
    dirPrefix base = [] ∨ (dirPrefix base).getLast? = some slash := by
  unfold dirPrefix
  split
  next h => exact h
  next => exact .inr (by simp)

theorem dash_not_mem_dirPrefix {base : List UInt8} (h : dash ∉ base) : dash ∉ dirPrefix base := by
  unfold dirPrefix
  split
  · exact h
  · simpa [h] using (by decide : dash ≠ slash)

theorem extension_suffix_entryPath (base name : List UInt8) :
    nutigraphExtension <:+ entryPath base name ↔ nutigraphExtension <:+ name := by
  refine ⟨fun h => ?_, fun h => h.trans (List.suffix_append _ _)⟩
  by_cases hlen : nutigraphExtension.length ≤ name.length
  · exact List.suffix_of_suffix_length_le h (List.suffix_append _ _) hlen
  obtain ⟨t, ht⟩ := List.suffix_of_suffix_length_le (List.suffix_append _ _) h (by omega)
  obtain ⟨u, hu⟩ := h
  have hP : u ++ t = dirPrefix base :=
    List.append_cancel_right (by rw [List.append_assoc, ht, hu, entryPath])
  have ht0 : t ≠ [] := by
    rintro rfl
    simp [← ht] at hlen
  obtain ⟨x, hx⟩ := List.getLast?_isSome.mpr ht0 |> Option.isSome_iff_exists.mp
  have hslash : slash ∈ nutigraphExtension := by
    rcases dirPrefix_empty_or_slash base with h0 | h0
    · exact absurd (List.append_eq_nil.mp (hP.trans h0)).2 ht0
    · rw [← hP, List.getLast?_append, hx] at h0
      simp only [Option.or_some, Option.some.injEq] at h0
      rw [← ht, ← h0]
      exact List.mem_append_left _ (List.mem_of_getLast?_eq_some hx)
  exact absurd hslash (by decide)

theorem substr_entryPath {base name : List UInt8} (hname : nutigraphExtension <:+ name)
    (hlt : (entryPath base name).length < 2 ^ 64) :
    substr (entryPath base name) (sizeSub (entryPath base name).length 10) =
      dirPrefix base ++ name.take (name.length - 10) := by
  have h10 := hname.length_le
  rw [length_nutigraphExtension] at h10
  rw [sizeSub_of_le (by simp [entryPath]; omega) hlt, substr, entryPath, List.length_append,
    show (dirPrefix base).length + name.length - 10 = (dirPrefix base).length + (name.length - 10)
      by omega, List.take_append]

/-! ## The set of package paths -/

theorem strLess_irrefl : ∀ x : List UInt8, strLess x x = false
  | [] => rfl
  | a :: as => by
    have h : Nat.blt a.toNat a.toNat = false := Bool.eq_false_iff.mpr (by simp [Nat.blt_eq])
    simp [strLess, strLess_irrefl as, h]

theorem strLess_trans : ∀ {x y z : List UInt8}, strLess x y = true → strLess y z = true →
    strLess x z = true
  | [], _ :: _, _ :: _, _, _ => rfl
  | a :: as, b :: bs, c :: cs, hxy, hyz => by
    simp only [strLess, Bool.or_eq_true, Bool.and_eq_true, Nat.blt_eq, Nat.beq_eq] at *
    rcases hxy with h1 | ⟨h1, h1'⟩ <;> rcases hyz with h2 | ⟨h2, h2'⟩
    · exact .inl (by omega)
    · exact .inl (by omega)
    · exact .inl (by omega)
    · exact .inr ⟨by omega, strLess_trans h1' h2'⟩
  | [], [], _, h, _ | _ :: _, [], _, h, _ | _, _ :: _, [], _, h => by cases h

theorem strLess_total : ∀ {x y : List UInt8}, strLess x y = false → x ≠ y → strLess y x = true
  | [], [], _, h => absurd rfl h
  | [], _ :: _, h, _ => by cases h
  | _ :: _, [], _, _ => rfl
  | a :: as, b :: bs, hxy, hne => by
    simp only [strLess, Bool.or_eq_false_iff, Bool.and_eq_false_imp, Nat.beq_eq] at hxy
    simp only [strLess, Bool.or_eq_true, Bool.and_eq_true, Nat.blt_eq, Nat.beq_eq]
    have hlt : ¬a.toNat < b.toNat := fun h => absurd (Nat.blt_eq.mpr h) (by simp [hxy.1])
    by_cases hab : a.toNat = b.toNat
    · obtain rfl : a = b := UInt8.toNat.inj hab
      exact .inr ⟨rfl, strLess_total (hxy.2 rfl) fun h => hne (h ▸ rfl)⟩
    · exact .inl (by omega)

theorem mem_setInsert {x y : List UInt8} :
    ∀ {l : List (List UInt8)}, y ∈ setInsert x l ↔ y = x ∨ y ∈ l
  | [] => by simp [setInsert]
  | z :: zs => by
    have ih := @mem_setInsert x y zs
    unfold setInsert
    split_ifs with h1 h2
    · exact List.mem_cons
    · subst h2
      rw [List.mem_cons, or_self_left]
    · rw [List.mem_cons, ih, List.mem_cons, or_left_comm]

theorem setInsert_sorted {x : List UInt8} :
    ∀ {l : List (List UInt8)}, l.Pairwise (strLess · ·) → (setInsert x l).Pairwise (strLess · ·)
  | [], _ => List.pairwise_singleton _ x
  | z :: zs, h => by
    have ih := @setInsert_sorted x zs
    obtain ⟨hz, hzs⟩ := List.pairwise_cons.mp h
    unfold setInsert
    split_ifs with h1 h2
    · refine List.pairwise_cons.mpr ⟨fun w hw => ?_, h⟩
      rcases List.mem_cons.mp hw with rfl | hw
      · exact h1
      · exact strLess_trans h1 (hz w hw)
    · exact h
    · refine List.pairwise_cons.mpr ⟨fun w hw => ?_, ih hzs⟩
      rcases mem_setInsert.mp hw with rfl | hw
      · exact strLess_total (by simpa using h1) h2
      · exact hz w hw

theorem mem_addPackageFile {base f : List UInt8} {files : List (List UInt8)} {e : DirEntry} :
    f ∈ addPackageFile base files e ↔ f ∈ files ∨
      (e.isRegularFile = true ∧ isPackagePath (entryPath base e.name) = true ∧
        f = substr (entryPath base e.name) (sizeSub (entryPath base e.name).length 10)) := by
  unfold addPackageFile
  split
  next h =>
    rw [mem_setInsert]
    simp only [Bool.and_eq_true] at h
    simp [h, or_comm]
  next h =>
    simp only [Bool.and_eq_true, not_and] at h
    constructor
    · exact .inl
    · rintro (hf | ⟨hr, hp, -⟩)
      · exact hf
      · exact absurd hp (by simp [h hr])

/-- The set holds the package paths of the listing, in order and each once. -/
theorem packageFiles_spec (base : List UInt8) (entries : List DirEntry) :
    (packageFiles base entries).Pairwise (strLess · ·) ∧
    ∀ f, f ∈ packageFiles base entries ↔ ∃ e ∈ entries, e.isRegularFile = true ∧
      isPackagePath (entryPath base e.name) = true ∧
      f = substr (entryPath base e.name) (sizeSub (entryPath base e.name).length 10) := by
  suffices h : ∀ init : List (List UInt8), init.Pairwise (strLess · ·) →
      (entries.foldl (addPackageFile base) init).Pairwise (strLess · ·) ∧
      ∀ f, f ∈ entries.foldl (addPackageFile base) init ↔ f ∈ init ∨ ∃ e ∈ entries,
        e.isRegularFile = true ∧ isPackagePath (entryPath base e.name) = true ∧
        f = substr (entryPath base e.name) (sizeSub (entryPath base e.name).length 10) by
    obtain ⟨hs, hm⟩ := h [] List.Pairwise.nil
    exact ⟨hs, fun f => by simpa using hm f⟩
  induction entries with
  | nil => exact fun init h => ⟨h, fun f => by simp⟩
  | cons e es ih =>
    intro init hinit
    have hstep : (addPackageFile base init e).Pairwise (strLess · ·) := by
      unfold addPackageFile
      split
      · exact setInsert_sorted hinit
      · exact hinit
    obtain ⟨hs, hm⟩ := ih _ hstep
    refine ⟨hs, fun f => ?_⟩
    rw [List.foldl_cons, hm, mem_addPackageFile]
    simp only [List.mem_cons, exists_eq_or_imp, or_assoc]

theorem nodup_of_sorted {l : List (List UInt8)} (h : l.Pairwise (strLess · ·)) : l.Nodup :=
  h.imp fun {x y} hxy hx => by simp [hx, strLess_irrefl] at hxy

/-! ## The import loop -/

theorem importCalls_append (es es' : List LoadEvent) :
    importCalls (es ++ es') = importCalls es ++ importCalls es' := by
  induction es with
  | nil => rfl
  | cons e es ih => cases e <;> simp [importCalls, ih]

theorem importCalls_loadLoop (importGraph : List UInt8 → Except String Bool)
    (files rest : List (List UInt8)) :
    importCalls (loadLoop importGraph files rest) =
      (rest.filter fun f => !skipsFile files f).map (· ++ nutigraphExtension) := by
  induction rest with
  | nil => rfl
  | cons f rest ih =>
    unfold loadLoop
    split
    next h => simp [importCalls, ih, h]
    next h =>
      have hm : importCalls (match importGraph (f ++ nutigraphExtension) with
          | .error what => [.failedToLoad (f ++ nutigraphExtension) what]
          | .ok _ => []) = [] := by split <;> rfl
      simp [importCalls, importCalls_append, hm, ih, h]

theorem skipsFile_append {P n : List UInt8} (hP : dash ∉ P) (hlt : (P ++ n).length < 2 ^ 64)
    (files : List (List UInt8)) :
    skipsFile files (P ++ n) = (decide (dash ∈ n) && decide (P ++ n.take (n.indexOf dash) ∈ files)) := by
  unfold skipsFile find
  by_cases hn : dash ∈ n
  · have hi := List.indexOf_lt_length.mpr hn
    have hlen : (P ++ n).length = P.length + n.length := List.length_append _ _
    rw [if_pos (List.mem_append_right _ hn), List.indexOf_append_of_not_mem hP, substr,
      List.take_append]
    have hne : (P.length + n.indexOf dash != npos) = true := by simp [npos]; omega
    simp [hne, hn]
  · rw [if_neg (by simp [hP, hn])]
    simp [hn]

/-! ## The rule on file names -/

/-- The logical names of a listing's package files: the regular files whose name ends in
`.nutigraph`, less that extension. -/
def logicalNames (entries : List DirEntry) : List (List UInt8) :=
  entries.filterMap fun e =>
    if e.isRegularFile = true ∧ nutigraphExtension <:+ e.name then
      some (e.name.take (e.name.length - 10))
    else none

/-- The rule on file names: the package with logical name `n` is loaded unless a `-` occurs
in `n` and the part of `n` before the first one is also a logical name. -/
def RuleLoads (entries : List DirEntry) (n : List UInt8) : Prop :=
  n ∈ logicalNames entries ∧ (dash ∈ n → n.take (n.indexOf dash) ∉ logicalNames entries)

theorem mem_logicalNames {entries : List DirEntry} {n : List UInt8} :
    n ∈ logicalNames entries ↔ ∃ e ∈ entries, e.isRegularFile = true ∧
      nutigraphExtension <:+ e.name ∧ n = e.name.take (e.name.length - 10) := by
  simp only [logicalNames, List.mem_filterMap]
  constructor
  · rintro ⟨e, he, h⟩
    split at h
    next hc => exact ⟨e, he, hc.1, hc.2, (Option.some.inj h).symm⟩
    next => cases h
  · rintro ⟨e, he, hr, hs, rfl⟩
    exact ⟨e, he, by simp [hr, hs]⟩

section Rule
variable {base : List UInt8} {entries : List DirEntry}
  (hpath : ∀ e ∈ entries, e.isRegularFile = true →
    (entryPath base e.name).length ≠ 9 ∧ (entryPath base e.name).length < 2 ^ 64)
include hpath

theorem dirPrefix_append_mem_packageFiles (m : List UInt8) :
    dirPrefix base ++ m ∈ packageFiles base entries ↔ m ∈ logicalNames entries := by
  rw [(packageFiles_spec base entries).2]
  constructor
  · rintro ⟨e, he, hr, hp, hm⟩
    obtain ⟨h9, hlt⟩ := hpath e he hr
    have hs := (extension_suffix_entryPath base e.name).mp ((isPackagePath_iff h9 hlt).mp hp)
    rw [substr_entryPath hs hlt] at hm
    exact mem_logicalNames.mpr ⟨e, he, hr, hs, List.append_cancel_left hm⟩
  · intro hm
    obtain ⟨e, he, hr, hs, rfl⟩ := mem_logicalNames.mp hm
    obtain ⟨h9, hlt⟩ := hpath e he hr
    exact ⟨e, he, hr, (isPackagePath_iff h9 hlt).mpr ((extension_suffix_entryPath base e.name).mpr hs),
      (substr_entryPath hs hlt).symm⟩

theorem mem_packageFiles_iff (f : List UInt8) :
    f ∈ packageFiles base entries ↔ ∃ n ∈ logicalNames entries, f = dirPrefix base ++ n := by
  constructor
  · intro hf
    obtain ⟨e, he, hr, hp, rfl⟩ := (packageFiles_spec base entries).2 f |>.mp hf
    obtain ⟨h9, hlt⟩ := hpath e he hr
    have hs := (extension_suffix_entryPath base e.name).mp ((isPackagePath_iff h9 hlt).mp hp)
    exact ⟨_, mem_logicalNames.mpr ⟨e, he, hr, hs, rfl⟩, substr_entryPath hs hlt⟩
  · rintro ⟨n, hn, rfl⟩
    exact (dirPrefix_append_mem_packageFiles hpath n).mpr hn

theorem length_dirPrefix_append_lt {n : List UInt8} (hn : n ∈ logicalNames entries) :
    (dirPrefix base ++ n).length < 2 ^ 64 := by
  obtain ⟨e, he, hr, -, rfl⟩ := mem_logicalNames.mp hn
  have hlt := (hpath e he hr).2
  simp only [entryPath, List.length_append, List.length_take] at hlt ⊢
  omega

/-- The import loop skips a logical name exactly when the rule on file names does. -/
theorem skipsFile_iff {n : List UInt8} (hbase : dash ∉ base) (hn : n ∈ logicalNames entries) :
    skipsFile (packageFiles base entries) (dirPrefix base ++ n) = false ↔
      (dash ∈ n → n.take (n.indexOf dash) ∉ logicalNames entries) := by
  rw [skipsFile_append (dash_not_mem_dirPrefix hbase) (length_dirPrefix_append_lt hpath hn),
    ← dirPrefix_append_mem_packageFiles hpath]
  simp

end Rule

/-- When the directory's path has no `-`, and no regular file's path is 9 bytes long or
`2 ^ 64` or longer, the constructor calls `import` exactly once on `B/n.nutigraph` for each
logical name `n` that the rule on file names loads, and on no other path, whatever each import
returns or raises. -/
theorem importCalls_loadPackages (importGraph : List UInt8 → Except String Bool)
    (base : List UInt8) (entries : List DirEntry) (hbase : dash ∉ base)
    (hpath : ∀ e ∈ entries, e.isRegularFile = true →
      (entryPath base e.name).length ≠ 9 ∧ (entryPath base e.name).length < 2 ^ 64) :
    (importCalls (loadPackages importGraph base entries)).Nodup ∧
    ∀ p, p ∈ importCalls (loadPackages importGraph base entries) ↔
      ∃ n, RuleLoads entries n ∧ p = entryPath base (n ++ nutigraphExtension) := by
  rw [loadPackages, importCalls_loadLoop]
  refine ⟨List.Nodup.map (fun _ _ h => List.append_cancel_right h)
    ((nodup_of_sorted (packageFiles_spec base entries).1).filter _), fun p => ?_⟩
  simp only [List.mem_map, List.mem_filter, Bool.not_eq_true', mem_packageFiles_iff hpath]
  constructor
  · rintro ⟨_, ⟨⟨n, hn, rfl⟩, hskip⟩, rfl⟩
    exact ⟨n, ⟨hn, (skipsFile_iff hpath hbase hn).mp hskip⟩, by simp [entryPath]⟩
  · rintro ⟨n, ⟨hn, hrule⟩, rfl⟩
    exact ⟨_, ⟨⟨n, hn, rfl⟩, (skipsFile_iff hpath hbase hn).mpr hrule⟩, by simp [entryPath]⟩

/-- The region listing in `/srv/osmdata` meets the conditions, and its imports are distinct. -/
theorem importCalls_loadPackages_region :
    dash ∉ utf8 "/srv/osmdata" ∧
      (∀ e ∈ regionEntries, e.isRegularFile = true →
        (entryPath (utf8 "/srv/osmdata") e.name).length ≠ 9 ∧
          (entryPath (utf8 "/srv/osmdata") e.name).length < 2 ^ 64) ∧
      (importCalls (loadPackages (fun _ => .ok true) (utf8 "/srv/osmdata") regionEntries)).Nodup :=
  ⟨by decide, by decide,
    (importCalls_loadPackages (fun _ => .ok true) _ regionEntries (by decide) (by decide)).1⟩

end OsrmNutiteq.Nuti
