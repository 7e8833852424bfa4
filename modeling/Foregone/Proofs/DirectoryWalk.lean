import Mathlib.Data.List.Sort
import Mathlib.Data.String.Basic
import Foregone.FileTree

/-! # Walking a directory

The sources of a directory are picked from a flat, sorted list of everything below it.
They are what a walk comes to that visits the entries of each directory by name and passes
over excluded directories: the same files, each once, in the same order. Which files these
are is said without either of the two. -/

namespace Foregone

/-- What a file holds, or why it cannot be read. -/
abbrev Content := Except String (List UInt8)

/-! ## Names and paths -/

namespace Path

/-- A name is cut at its last point. -/
theorem suffix_append (cs : List Char) {stem ending : String}
    (hending : ending.toList = '.' :: cs) (hpoint : '.' ∉ cs) (hcs : cs ≠ []) (hstem : stem ≠ "") :
    suffix (stem ++ ending) = ending := by
  have hreversed : (stem ++ ending).toList.reverse =
      cs.reverse ++ '.' :: stem.toList.reverse := by simp [hending]
  have hnone : ∀ c ∈ cs.reverse, (c != '.') = true := by
    intro c hc
    rw [List.mem_reverse] at hc
    simpa using fun h : c = '.' => hpoint (h ▸ hc)
  have htake : (cs.reverse ++ '.' :: stem.toList.reverse).takeWhile (· != '.') = cs.reverse := by
    rw [List.takeWhile_append_of_pos hnone]
    simp
  have hjoined : "." ++ String.ofList cs = ending := by
    rw [← String.toList_inj, hending]
    simp
  rw [suffix, hreversed, htake]
  simp [hstem, hcs, hjoined]

theorem exists_of_suffix {name : String} (h : suffix name ≠ "") :
    ∃ stem, stem ≠ "" ∧ name = stem ++ suffix name := by
  rw [suffix] at h ⊢
  generalize hending : name.toList.reverse.takeWhile (· != '.') = ending at h ⊢
  have hparts : ending ++ name.toList.reverse.dropWhile (· != '.') = name.toList.reverse := by
    rw [← hending]
    exact List.takeWhile_append_dropWhile
  cases hrest : name.toList.reverse.dropWhile (· != '.') with
  | nil =>
    -- there is no point in the name
    rw [hrest, List.append_nil] at hparts
    exact absurd (by simp [← hparts]) h
  | cons c stem =>
    have hc : c = '.' := by
      have hhead := List.head?_dropWhile_not (· != '.') name.toList.reverse
      rw [hrest] at hhead
      simpa using hhead
    subst hc
    rw [hrest] at hparts
    have hstem : name.toList.reverse.drop (ending.length + 1) = stem := by simp [← hparts]
    simp only [hstem] at h ⊢
    split at h
    · exact absurd rfl h
    · rename_i hsome
      refine ⟨String.ofList stem.reverse, ?_, ?_⟩
      · simpa using fun hstem : stem = [] => hsome (by simp [hstem])
      · rw [if_neg hsome, ← String.toList_inj, ← List.reverse_inj, ← hparts]
        simp
theorem isSourceName_iff {name : String} : isSourceName name = true ↔
    ∃ stem, stem ≠ "" ∧ (name = stem ++ ".py" ∨ name = stem ++ ".pyi") := by
  simp only [isSourceName, sourceSuffixes, List.contains_eq_mem, decide_eq_true_eq, List.mem_cons,
    List.not_mem_nil, or_false]
  constructor
  · intro h
    have hne : suffix name ≠ "" := by rcases h with h | h <;> simp [h]
    obtain ⟨stem, hstem, hname⟩ := exists_of_suffix hne
    refine ⟨stem, hstem, h.imp ?_ ?_⟩
    · intro h
      rwa [h] at hname
    · intro h
      rwa [h] at hname
  · rintro ⟨stem, hstem, rfl | rfl⟩
    · exact .inl (suffix_append ['p', 'y'] rfl (by decide) (by decide) hstem)
    · exact .inr (suffix_append ['p', 'y', 'i'] rfl (by decide) (by decide) hstem)

theorem le_eq_true_iff (p q : List String) : le p q = true ↔ p < q ∨ p = q := by
  induction p, q using le.induct with
  | case1 q => cases q <;> simp [le]
  | case2 a as => simp [le]
  | case3 a as b bs ih =>
    simp only [le, Bool.or_eq_true, decide_eq_true_eq, Bool.and_eq_true, beq_iff_eq, ih,
      List.cons_lt_cons_iff, List.cons.injEq]
    tauto

/-- A path from which one can tell the names it was joined from. -/
theorem intercalate_inj {p q : List String} (hp : p ≠ []) (hq : q ≠ [])
    (hps : ∀ x ∈ p, '/' ∉ x.toList) (hqs : ∀ x ∈ q, '/' ∉ x.toList)
    (h : "/".intercalate p = "/".intercalate q) : p = q := by
  have hsplit {l : List String} (hne : l ≠ []) (hslash : ∀ x ∈ l, '/' ∉ x.toList) :
      ("/".intercalate l).toList.splitOn '/' = l.map String.toList := by
    rw [String.toList_intercalate]
    exact List.splitOn_intercalate '/' (by simpa using hslash) (by simpa using hne)
  have hlists : p.map String.toList = q.map String.toList := by
    rw [← hsplit hp hps, ← hsplit hq hqs, h]
  exact List.map_injective_iff.mpr (fun _ _ => String.toList_inj.mp) hlists

theorem intercalate_append_inj (front : List String) {p q : List String} (hp : p ≠ [])
    (hq : q ≠ []) (hps : ∀ x ∈ p, '/' ∉ x.toList) (hqs : ∀ x ∈ q, '/' ∉ x.toList)
    (h : "/".intercalate (front ++ p) = "/".intercalate (front ++ q)) : p = q := by
  by_cases hfront : front = []
  · subst hfront
    exact intercalate_inj hp hq hps hqs h
  · rw [String.intercalate_append_of_ne_nil hfront hp,
      String.intercalate_append_of_ne_nil hfront hq, String.append_right_inj] at h
    exact intercalate_inj hp hq hps hqs h

theorem text_cons {name : String} (h : isRoot name = false) (names : List String) :
    text (name :: names) = "/".intercalate (name :: names) := by
  simp [text, h]

theorem text_root {root : String} (h : isRoot root = true) (names : List String) :
    text (root :: names) = root ++ "/".intercalate names := by
  simp [text, h]

/-- A root is made of slashes. -/
theorem isRoot_eq_false {name : String} (h : '/' ∉ name.toList) : isRoot name = false := by
  refine Bool.eq_false_iff.mpr fun hroot => ?_
  simp only [isRoot, Bool.or_eq_true, beq_iff_eq] at hroot
  obtain rfl | rfl := hroot
  · exact h (by decide)
  · exact h (by decide)

/-- What is below a path is shown by texts that differ. -/
theorem text_append_inj (front : List String) {p q : List String} (hp : p ≠ []) (hq : q ≠ [])
    (hps : ∀ x ∈ p, '/' ∉ x.toList) (hqs : ∀ x ∈ q, '/' ∉ x.toList)
    (h : text (front ++ p) = text (front ++ q)) : p = q := by
  cases front with
  | nil =>
    have hplain {l : List String} (hne : l ≠ []) (hslash : ∀ x ∈ l, '/' ∉ x.toList) :
        text ([] ++ l) = "/".intercalate l := by
      obtain ⟨name, names, rfl⟩ := List.exists_cons_of_ne_nil hne
      exact text_cons (isRoot_eq_false (hslash name List.mem_cons_self)) names
    rw [hplain hp hps, hplain hq hqs] at h
    exact intercalate_inj hp hq hps hqs h
  | cons name front =>
    cases hroot : isRoot name with
    | true =>
      rw [List.cons_append, List.cons_append, text_root hroot, text_root hroot,
        String.append_right_inj] at h
      exact intercalate_append_inj front hp hq hps hqs h
    | false =>
      rw [List.cons_append, List.cons_append, text_cons hroot, text_cons hroot] at h
      exact intercalate_append_inj (name :: front) hp hq hps hqs h

end Path

namespace FileTree

/-! ## What stands below a tree -/

/-- The names lead from the tree down to `below`. -/
inductive Below : FileTree → List String → FileTree → Prop where
  | entry {entries : List (String × FileTree)} {name : String} {below : FileTree}
    (h : (name, below) ∈ entries) : Below (.dir entries) [name] below
  | deeper {entries : List (String × FileTree)} {name : String} {tree below : FileTree}
    {names : List String} (h : (name, tree) ∈ entries) (hbelow : Below tree names below) :
    Below (.dir entries) (name :: names) below

/-- No directory has two entries of one name, and a slash is in no name. -/
inductive WellNamed : FileTree → Prop where
  | file (content : Content) : WellNamed (.file content)
  | other (reason : String) : WellNamed (.other reason)
  | dir {entries : List (String × FileTree)} (apart : (entries.map Prod.fst).Nodup)
    (slash : ∀ e ∈ entries, '/' ∉ e.1.toList) (inner : ∀ e ∈ entries, WellNamed e.2) :
    WellNamed (.dir entries)

/-- A walk from the tree comes to a source file: its name is some stem with the ending of a
source, and no directory on the way is excluded. -/
structure IsSource (tree : FileTree) (names : List String) (content : Content) : Prop where
  below : tree.Below names (.file content)
  ending : ∃ stem, stem ≠ "" ∧
    (names.getLast? = some (stem ++ ".py") ∨ names.getLast? = some (stem ++ ".pyi"))
  included : ∀ name ∈ names.dropLast, name ∉ Path.excludedNames

/-- What holds of files and other things, and of a directory if it holds of its entries,
holds of every tree. -/
theorem induction {P : FileTree → Prop} (file : ∀ content, P (.file content))
    (other : ∀ reason, P (.other reason))
    (dir : ∀ entries, (∀ e ∈ entries, P e.2) → P (.dir entries)) : ∀ tree, P tree :=
  @FileTree.rec P (fun entries => ∀ e ∈ entries, P e.2) (fun e => P e.2) file other dir
    (by simp) (fun _ _ hhead htail => List.forall_mem_cons.mpr ⟨hhead, htail⟩) (fun _ _ h => h)

theorem Below.ne_nil {tree below : FileTree} {names : List String} (h : tree.Below names below) :
    names ≠ [] := by
  cases h <;> simp

/-! ## The flat list -/

theorem descendantsOf_eq (entries : List (String × FileTree)) :
    descendantsOf entries = entries.flatMap fun e =>
      ([e.1], e.2) :: e.2.descendants.map fun d => (e.1 :: d.1, d.2) := by
  induction entries with
  | nil => rfl
  | cons e entries ih => simp [descendantsOf, ih]

theorem mem_descendants {tree below : FileTree} {names : List String} :
    (names, below) ∈ tree.descendants ↔ tree.Below names below := by
  induction tree using FileTree.induction generalizing names with
  | file content | other reason =>
    simp only [descendants, List.not_mem_nil, false_iff]
    nofun
  | dir entries ih =>
    rw [descendants, descendantsOf_eq]
    simp only [List.mem_flatMap, List.mem_cons, List.mem_map, Prod.mk.injEq, Prod.exists]
    constructor
    · rintro ⟨name, tree, he, ⟨rfl, rfl⟩ | ⟨rest, below, hbelow, rfl, rfl⟩⟩
      · exact .entry he
      · exact .deeper he ((ih _ he).mp hbelow)
    · rintro (he | ⟨he, hbelow⟩)
      · exact ⟨_, _, he, .inl ⟨rfl, rfl⟩⟩
      · exact ⟨_, _, he, .inr ⟨_, _, (ih _ he).mpr hbelow, rfl, rfl⟩⟩

theorem WellNamed.nodup_descendants {tree : FileTree} (h : tree.WellNamed) :
    (tree.descendants.map Prod.fst).Nodup := by
  induction h with
  | file | other => exact .nil
  | @dir entries apart _ _ ih =>
    rw [descendants, descendantsOf_eq, List.map_flatMap, List.nodup_flatMap]
    constructor
    · intro e he
      have hself : [e.1] ∉ (e.2.descendants.map Prod.fst).map (e.1 :: ·) := by
        simp only [List.mem_map, List.cons.injEq, true_and, exists_eq_right, Prod.exists]
        rintro ⟨names, below, hbelow, rfl⟩
        exact (mem_descendants.mp hbelow).ne_nil rfl
      have hinner := (ih e he).map (List.cons_injective (a := e.1))
      simpa [Function.comp_def] using And.intro hself hinner
    · -- what is below two entries differs in its first name
      refine (List.pairwise_map.mp apart).imp ?_
      intro e e' hne names hnames hnames'
      have hfirst {e : String × FileTree} (h : names ∈ (([e.1], e.2) ::
          e.2.descendants.map fun d => (e.1 :: d.1, d.2)).map Prod.fst) :
          names.head? = some e.1 := by
        simp only [List.map_cons, List.map_map, List.mem_cons, List.mem_map] at h
        rcases h with rfl | ⟨d, -, rfl⟩ <;> rfl
      exact hne (Option.some.inj ((hfirst hnames).symm.trans (hfirst hnames')))

theorem mem_sources {tree : FileTree} {names : List String} {content : Content} :
    (names, content) ∈ tree.sources ↔ tree.IsSource names content := by
  have hincluded : Path.isIncluded names = true ↔
      ∀ name ∈ names.dropLast, name ∉ Path.excludedNames := by simp [Path.isIncluded]
  have hending : names.getLast?.any Path.isSourceName = true ↔ ∃ stem, stem ≠ "" ∧
      (names.getLast? = some (stem ++ ".py") ∨ names.getLast? = some (stem ++ ".pyi")) := by
    cases names.getLast? <;> simp [Path.isSourceName_iff]
  have hpicked : (names, content) ∈ tree.sources ↔ (names, .file content) ∈ tree.descendants ∧
      Path.isIncluded names = true ∧ names.getLast?.any Path.isSourceName = true := by
    simp only [sources, sorted, List.mem_filterMap, List.mem_mergeSort]
    constructor
    · rintro ⟨⟨names', below⟩, hbelow, hpick⟩
      cases below with
      | file =>
        simp only [Option.ite_none_right_eq_some, Bool.and_eq_true, Option.some.injEq,
          Prod.mk.injEq] at hpick
        obtain ⟨hpick, rfl, rfl⟩ := hpick
        exact ⟨hbelow, hpick⟩
      | other | dir => cases hpick
    · rintro ⟨hbelow, hin, hlast⟩
      exact ⟨_, hbelow, by simp [hin, hlast]⟩
  rw [hpicked, mem_descendants, hincluded, hending]
  constructor
  · rintro ⟨hbelow, hin, hlast⟩
    exact ⟨hbelow, hlast, hin⟩
  · rintro ⟨hbelow, hlast, hin⟩
    exact ⟨hbelow, hin, hlast⟩

theorem WellNamed.pairwise_sorted {tree : FileTree} (h : tree.WellNamed) :
    tree.sorted.Pairwise fun a b => a.1 < b.1 := by
  have hle : tree.sorted.Pairwise fun a b => Path.le a.1 b.1 = true := by
    apply List.pairwise_mergeSort
    · intro a b c hab hbc
      rw [Path.le_eq_true_iff, ← le_iff_lt_or_eq] at *
      exact hab.trans hbc
    · intro a b
      simp only [Bool.or_eq_true, Path.le_eq_true_iff, ← le_iff_lt_or_eq]
      exact le_total a.1 b.1
  have hnodup : (tree.sorted.map Prod.fst).Nodup :=
    ((List.mergeSort_perm _ _).map Prod.fst).nodup_iff.mpr h.nodup_descendants
  refine (hle.and (List.pairwise_map.mp hnodup)).imp ?_
  intro a b hab
  exact ((Path.le_eq_true_iff _ _).mp hab.1).resolve_right hab.2

theorem WellNamed.pairwise_sources {tree : FileTree} (h : tree.WellNamed) :
    tree.sources.Pairwise fun a b => a.1 < b.1 := by
  refine h.pairwise_sorted.filterMap _ ?_
  rintro ⟨names, below⟩ ⟨names', below'⟩ hlt e he e' he'
  cases below with
  | other | dir => cases he
  | file =>
    cases below' with
    | other | dir => cases he'
    | file =>
      simp only [Option.ite_none_right_eq_some, Option.some.injEq] at he he'
      rw [← he.2, ← he'.2]
      exact hlt

/-! ## The walk -/

/-- What a walk finds at an entry: a source file itself, and all that it finds `inside` a
directory that is not excluded. -/
def foundAt (name : String) (tree : FileTree) (inside : List (List String × Content)) :
    List (List String × Content) :=
  match tree with
  | .file content => if Path.isSourceName name then [([name], content)] else []
  | .other _ => []
  | .dir _ =>
    if Path.excludedNames.contains name then [] else inside.map fun e => (name :: e.1, e.2)

/-- In the order of the names that stand in front. -/
def byName {α : Type} (named : List (String × α)) : List (String × α) :=
  named.mergeSort fun a b => decide (a.1 ≤ b.1)

theorem mem_byName {α : Type} {named : List (String × α)} {e : String × α} :
    e ∈ byName named ↔ e ∈ named := List.mem_mergeSort

theorem pairwise_byName {α : Type} {named : List (String × α)} (h : (named.map Prod.fst).Nodup) :
    (byName named).Pairwise fun a b => a.1 < b.1 := by
  have hle : (byName named).Pairwise fun a b => decide (a.1 ≤ b.1) = true := by
    apply List.pairwise_mergeSort
    · intro a b c hab hbc
      rw [decide_eq_true_eq] at *
      exact hab.trans hbc
    · intro a b
      simpa using le_total a.1 b.1
  have hnodup : ((byName named).map Prod.fst).Nodup :=
    ((List.mergeSort_perm _ _).map Prod.fst).nodup_iff.mpr h
  refine (hle.and (List.pairwise_map.mp hnodup)).imp ?_
  intro a b hab
  exact lt_of_le_of_ne (of_decide_eq_true hab.1) hab.2

mutual

/-- The source files below a tree in the order in which a walk comes to them that visits the
entries of a directory by name. -/
def walk : FileTree → List (List String × Content)
  | .file _ => []
  | .other _ => []
  | .dir entries => (byName (visits entries)).flatMap Prod.snd

/-- Each entry with what a walk finds there. -/
def visits : List (String × FileTree) → List (String × List (List String × Content))
  | [] => []
  | (name, tree) :: rest => (name, foundAt name tree (walk tree)) :: visits rest

end

theorem visits_eq (entries : List (String × FileTree)) :
    visits entries = entries.map fun e => (e.1, foundAt e.1 e.2 e.2.walk) := by
  induction entries with
  | nil => rfl
  | cons e entries ih => rw [visits, ih, List.map_cons]

theorem mem_walk_dir {entries : List (String × FileTree)} {found : List String × Content} :
    found ∈ (dir entries).walk ↔ ∃ e ∈ entries, found ∈ foundAt e.1 e.2 e.2.walk := by
  simp [walk, mem_byName, visits_eq]

/-- What is found at an entry begins with its name. -/
theorem exists_of_mem_foundAt {name : String} {tree : FileTree}
    {inside : List (List String × Content)} {found : List String × Content}
    (h : found ∈ foundAt name tree inside) : ∃ rest, found.1 = name :: rest := by
  cases tree with
  | file content =>
    simp only [foundAt, List.mem_ite_nil_right, List.mem_singleton] at h
    exact ⟨[], by rw [h.2]⟩
  | other => cases h
  | dir =>
    simp only [foundAt, List.mem_ite_nil_left, List.mem_map] at h
    obtain ⟨-, e, -, rfl⟩ := h
    exact ⟨e.1, rfl⟩

theorem mem_walk {tree : FileTree} {names : List String} {content : Content} :
    (names, content) ∈ tree.walk ↔ tree.IsSource names content := by
  induction tree using FileTree.induction generalizing names with
  | file | other =>
    simp only [walk, List.not_mem_nil, false_iff]
    rintro ⟨⟨⟩, -⟩
  | dir entries ih =>
    rw [mem_walk_dir]
    constructor
    · rintro ⟨⟨name, tree⟩, he, hfound⟩
      cases tree with
      | file =>
        simp only [foundAt, List.mem_ite_nil_right, List.mem_singleton, Prod.mk.injEq] at hfound
        obtain ⟨hname, rfl, rfl⟩ := hfound
        exact ⟨.entry he, by simpa using Path.isSourceName_iff.mp hname, by simp⟩
      | other => cases hfound
      | dir inner =>
        simp only [foundAt, List.mem_ite_nil_left, List.mem_map, Prod.mk.injEq, Prod.exists] at hfound
        obtain ⟨hname, rest, _, hrest, rfl, rfl⟩ := hfound
        obtain ⟨hbelow, hlast, hin⟩ := (ih _ he).mp hrest
        obtain ⟨first, rest, rfl⟩ := List.exists_cons_of_ne_nil hbelow.ne_nil
        refine ⟨.deeper he hbelow, by simpa using hlast, ?_⟩
        rw [List.dropLast_cons_cons]
        exact List.forall_mem_cons.mpr ⟨by simpa using hname, hin⟩
    · rintro ⟨hbelow, hlast, hin⟩
      cases hbelow with
      | @entry _ name _ he =>
        refine ⟨_, he, ?_⟩
        have hname : Path.isSourceName name = true :=
          Path.isSourceName_iff.mpr (by simpa using hlast)
        simp [foundAt, hname]
      | @deeper _ name tree _ rest he hbelow =>
        refine ⟨_, he, ?_⟩
        obtain ⟨first, rest, rfl⟩ := List.exists_cons_of_ne_nil hbelow.ne_nil
        rw [List.dropLast_cons_cons] at hin
        obtain ⟨hname, hin⟩ := List.forall_mem_cons.mp hin
        have hrest := (ih _ he).mpr ⟨hbelow, by simpa using hlast, hin⟩
        cases tree with
        | file | other => cases hbelow
        | dir inner => simpa [foundAt, hname] using hrest

theorem pairwise_foundAt {name : String} {tree : FileTree}
    {inside : List (List String × Content)} (h : inside.Pairwise fun a b => a.1 < b.1) :
    (foundAt name tree inside).Pairwise fun a b => a.1 < b.1 := by
  cases tree with
  | file =>
    rw [foundAt]
    split <;> simp
  | other => exact .nil
  | dir =>
    rw [foundAt]
    split
    · exact .nil
    · refine List.pairwise_map.mpr (h.imp ?_)
      intro a b hab
      exact List.cons_lt_cons_iff.mpr (.inr ⟨rfl, hab⟩)

theorem WellNamed.pairwise_walk {tree : FileTree} (h : tree.WellNamed) :
    tree.walk.Pairwise fun a b => a.1 < b.1 := by
  induction h with
  | file | other => exact .nil
  | @dir entries apart _ _ ih =>
    have hvisit {v : String × List (List String × Content)} (hv : v ∈ byName (visits entries)) :
        ∃ e ∈ entries, v = (e.1, foundAt e.1 e.2 e.2.walk) := by
      rw [mem_byName, visits_eq, List.mem_map] at hv
      obtain ⟨e, he, rfl⟩ := hv
      exact ⟨e, he, rfl⟩
    have hnodup : ((visits entries).map Prod.fst).Nodup := by
      rw [visits_eq, List.map_map]
      exact apart
    rw [walk, List.pairwise_flatMap]
    constructor
    · intro v hv
      obtain ⟨e, he, rfl⟩ := hvisit hv
      exact pairwise_foundAt (ih e he)
    · refine (pairwise_byName hnodup).imp_of_mem ?_
      intro v w hv hw hlt a ha b hb
      obtain ⟨e, -, rfl⟩ := hvisit hv
      obtain ⟨e', -, rfl⟩ := hvisit hw
      obtain ⟨rest, ha⟩ := exists_of_mem_foundAt ha
      obtain ⟨rest', hb⟩ := exists_of_mem_foundAt hb
      rw [ha, hb]
      exact List.cons_lt_cons_iff.mpr (.inl hlt)

/-- Lists that are ordered alike and have the same members are the same. -/
theorem eq_of_mem_iff {found found' : List (List String × Content)}
    (h : found.Pairwise fun a b => a.1 < b.1) (h' : found'.Pairwise fun a b => a.1 < b.1)
    (hmem : ∀ e, e ∈ found ↔ e ∈ found') : found = found' := by
  have hnodup {l : List (List String × Content)} (h : l.Pairwise fun a b => a.1 < b.1) :
      l.Nodup := by
    refine h.imp ?_
    rintro a b hlt rfl
    exact lt_irrefl _ hlt
  have hperm := (List.perm_ext_iff_of_nodup (hnodup h) (hnodup h')).mpr hmem
  refine hperm.eq_of_pairwise ?_ h h'
  intro a b _ _ hab hba
  exact (lt_asymm hab hba).elim

theorem WellNamed.sources_eq_walk {tree : FileTree} (h : tree.WellNamed) :
    tree.sources = tree.walk :=
  eq_of_mem_iff h.pairwise_sources h.pairwise_walk fun _ => mem_sources.trans mem_walk.symm

theorem WellNamed.not_mem_of_below {tree below : FileTree} {names : List String}
    (h : tree.WellNamed) (hbelow : tree.Below names below) : ∀ name ∈ names, '/' ∉ name.toList := by
  induction hbelow with
  | entry he =>
    cases h with
    | dir _ slash _ => simpa using slash _ he
  | deeper he _ ih =>
    cases h with
    | dir _ slash inner => exact List.forall_mem_cons.mpr ⟨slash _ he, ih (inner _ he)⟩

end FileTree

namespace SourceFile

open FileTree

/-- The sources of a directory are shown by different paths. -/
theorem nodup_ofPath (path : String) {tree : FileTree} (h : tree.WellNamed) :
    ((ofPath path tree).map SourceFile.path).Nodup := by
  cases tree with
  | file | other => simp [ofPath]
  | dir entries =>
    rw [ofPath, List.map_map]
    refine List.pairwise_map.mpr (h.pairwise_sources.imp_of_mem ?_)
    intro a b ha hb hlt htext
    have hbelow := (mem_sources.mp ha).below
    have hbelow' := (mem_sources.mp hb).below
    have hnames := Path.text_append_inj _ hbelow.ne_nil hbelow'.ne_nil
      (h.not_mem_of_below hbelow) (h.not_mem_of_below hbelow') htext
    exact lt_irrefl _ (hnames ▸ hlt)

/-- The sources of paths are those of each path, one path after the other. Those of a
directory are what a walk comes to: all source files below that are in no excluded
directory and no others, each once, in the order of their names part by part. Anything else
stands for itself. -/
theorem ofPaths_exact {paths : List (String × FileTree)} (h : ∀ p ∈ paths, p.2.WellNamed) :
    ofPaths paths = (paths.map fun p => ofPath p.1 p.2).flatten ∧
    (∀ path entries, (path, dir entries) ∈ paths →
      ofPath path (dir entries) = (dir entries).walk.map
        (fun e => ⟨Path.text (Path.parts path ++ e.1), e.2⟩) ∧
      (∀ names content, (names, content) ∈ (dir entries).walk ↔
        (dir entries).IsSource names content) ∧
      ((dir entries).walk.map Prod.fst).Pairwise (· < ·) ∧
      ((ofPath path (dir entries)).map SourceFile.path).Nodup) ∧
    (∀ path content, ofPath path (.file content) = [⟨Path.text (Path.parts path), content⟩]) ∧
    (∀ path reason, ofPath path (.other reason) =
      [⟨Path.text (Path.parts path), .error reason⟩]) := by
  refine ⟨List.flatMap_def, ?_, fun _ _ => rfl, fun _ _ => rfl⟩
  intro path entries hmem
  have hnamed : (dir entries).WellNamed := h _ hmem
  refine ⟨?_, fun _ _ => mem_walk, List.pairwise_map.mpr hnamed.pairwise_walk,
    nodup_ofPath path hnamed⟩
  rw [ofPath, hnamed.sources_eq_walk]

/-- An excluded directory is passed over, unless it is the one that was asked for; a name
that is only an ending is none of a source. -/
theorem ofPaths_exact_pruned :
    let empty : FileTree := .file (.ok [])
    let inner := [("dist", dir [("d.py", empty)]), ("a.tar.pyi", empty)]
    let tree := dir [("z.py", empty), ("pkg.py", dir inner), (".py", empty), ("b.py", .other "")]
    let paths := [("build", tree), ("notes.txt", empty)]
    (∀ p ∈ paths, p.2.WellNamed) ∧
      ofPaths paths = [⟨Path.text (Path.parts "build" ++ ["pkg.py", "a.tar.pyi"]), .ok []⟩,
        ⟨Path.text (Path.parts "build" ++ ["z.py"]), .ok []⟩,
        ⟨Path.text (Path.parts "notes.txt"), .ok []⟩] := by
  intro empty inner tree paths
  have hempty : empty.WellNamed := .file _
  have hdist : (dir [("d.py", empty)]).WellNamed := .dir (by decide) (by decide) (by simpa)
  have hinner : (dir inner).WellNamed :=
    .dir (by decide) (by decide) (by simp [inner, hdist, hempty])
  have htree : tree.WellNamed :=
    .dir (by decide) (by decide) (by simp [hinner, hempty, WellNamed.other])
  have hnamed : ∀ p ∈ paths, p.2.WellNamed := by simp [paths, htree, hempty]
  have hwalk : tree.walk = [(["pkg.py", "a.tar.pyi"], .ok []), (["z.py"], .ok [])] := by
    have hending : Path.isSourceName ".py" = false := by decide
    have hz : Path.isSourceName "z.py" = true := by decide
    have ha : Path.isSourceName "a.tar.pyi" = true := by decide
    simp [tree, inner, empty, walk, visits, foundAt, byName, List.mergeSort, Path.excludedNames,
      hending, hz, ha]
  obtain ⟨hall, hdir, hfile, -⟩ := ofPaths_exact hnamed
  obtain ⟨hbuild, -⟩ := hdir "build" _ List.mem_cons_self
  refine ⟨hnamed, ?_⟩
  rw [hall, List.map_cons, List.map_cons, hbuild, hwalk, hfile]
  rfl

end SourceFile
end Foregone
