import Mathlib.Data.List.Pairwise
import StyleContract.Proofs.Files.Walk
import StyleContract.Proofs.Text.ByteOrder

/-!
# Proofs — Files — Enumeration

What a walk returns, told by the tree alone. A directory holds a file at some names if these names lead to it
through directories (`HoldsAt`), whatever the directories are called and in whatever order they list their
entries. A walk passes over the files below ignored directories and over all links (`liesAt_iff`). It meets each
of the others once (`pairwise_filesAmong`), since names that lead elsewhere make another path.

**A walk returns the first files of one list** (`collectFiles_enumerates`): the list of all files that are accepted
and do not lie below an ignored directory, in the order of the bytes of their paths. Only what the directory
holds decides about this list (`Enumerates.eq_of_holdsAt`), neither the order of the entries nor a link.
-/

namespace StyleContract

namespace Entry

variable {content : ByteArray} {children : List (String × Entry)} {names front : List String}
  {child other : String × Entry} {path : String} {e : Entry} {f g : FoundFile}

/-- A directory holds a file at some names: all but the last one are those of directories. -/
inductive HoldsAt (content : ByteArray) : List (String × Entry) → List String → Prop where
  | here {children : List (String × Entry)} {name : String}
      (h : (name, .file content) ∈ children) : HoldsAt content children [name]
  | within {children inner : List (String × Entry)} {name : String} {names : List String}
      (h : (name, .folder inner) ∈ children) (hinner : HoldsAt content inner names) :
      HoldsAt content children (name :: names)

theorem HoldsAt.ne_nil (h : HoldsAt content children names) : names ≠ [] := by
  cases h <;> exact List.cons_ne_nil _ _

theorem HoldsAt.mono {others : List (String × Entry)} (h : HoldsAt content children names)
    (hsub : ∀ child ∈ children, child ∈ others) : HoldsAt content others names := by
  cases h with
  | here h => exact .here (hsub _ h)
  | within h hinner => exact .within (hsub _ h) hinner

/-- **A walk meets the files that do not lie below an ignored directory**, whatever they are called
themselves. -/
theorem liesAt_iff : LiesAt content children names ↔
    HoldsAt content children names ∧ ∀ folder ∈ names.dropLast, folder ∉ ignoredFolders := by
  constructor
  · refine fun h => ⟨?_, h.not_ignored⟩
    induction h with
    | here h => exact .here h
    | within h _ _ ih => exact .within h ih
  · rintro ⟨h, hentered⟩
    induction h with
    | here h => exact .here h
    | within h hinner ih =>
        rw [List.dropLast_cons_of_ne_nil hinner.ne_nil, List.forall_mem_cons] at hentered
        exact .within h hentered.1 (ih hentered.2)

/-! ### What a walk meets -/

/-- The files at and below one entry of a directory. -/
def filesAt (path : String) : String × Entry → List FoundFile
  | (name, .folder inner) =>
    if name ∈ ignoredFolders then [] else filesAmong (Path.join path name) inner
  | (name, .file content) => [⟨withSlashes (Path.join path name), .file content⟩]
  | (_, .link _) => []

theorem filesAmong_eq_flatMap (path : String) (children : List (String × Entry)) :
    filesAmong path children = children.flatMap (filesAt path) := by
  induction children with
  | nil => rw [filesAmong, List.flatMap_nil]
  | cons child children ih =>
      obtain ⟨name, content | inner | target⟩ := child <;>
        rw [filesAmong, List.flatMap_cons, ih] <;> rfl

theorem mem_filesAmong_of_liesAt (h : LiesAt content children names) (path : String) :
    ⟨withSlashes (names.foldl Path.join path), .file content⟩ ∈ filesAmong path children := by
  induction h generalizing path with
  | here h =>
      rw [filesAmong_eq_flatMap]
      exact List.mem_flatMap.2 ⟨_, h, List.mem_singleton.2 rfl⟩
  | within h hname _ ih =>
      rw [filesAmong_eq_flatMap]
      refine List.mem_flatMap.2 ⟨_, h, ?_⟩
      rw [filesAt, if_neg hname]
      exact ih _

theorem mem_filesAmong_iff (hn : Named (.folder children)) : f ∈ filesAmong "" children ↔
    ∃ content names, LiesAt content children names ∧ f = ⟨"/".intercalate names, .file content⟩ := by
  have hpath : ∀ {content names}, LiesAt content children names →
      withSlashes (names.foldl Path.join "") = "/".intercalate names := fun h => by
    have hnames := h.isName hn
    rw [← Path.along_eq_intercalate hnames]
    exact withSlashes_eq (Path.backslash_not_mem_along hnames)
  constructor
  · intro hf
    obtain ⟨content, names, hlies, rfl⟩ := liesAt_of_mem_filesAmong "" children f hf
    exact ⟨content, names, hlies, by rw [hpath hlies]⟩
  · rintro ⟨content, names, hlies, rfl⟩
    rw [← hpath hlies]
    exact mem_filesAmong_of_liesAt hlies ""

/-! ### Each file once -/

/-- A path that a walk writes goes on with the name of the entry that it is about. -/
theorem steps_of_mem_filesAt (hn : Named (.folder children)) (hfront : ∀ name ∈ front, Path.IsName name)
    (hchild : child ∈ children) (hf : f ∈ filesAt (Path.along front) child) :
    ∃ more, Path.steps f.path = front ++ child.1 :: more := by
  have hone : f ∈ filesAmong (Path.along front) [child] := by
    rwa [filesAmong_eq_flatMap, List.flatMap_singleton]
  obtain ⟨content, names, hlies, rfl⟩ := liesAt_of_mem_filesAmong _ _ f hone
  have hnames : ∀ name ∈ front ++ names, Path.IsName name :=
    List.forall_mem_append.2 ⟨hfront, (hlies.mono fun _ hmem =>
      List.mem_singleton.1 hmem ▸ hchild).isName hn⟩
  have hpath : names.foldl Path.join (Path.along front) = Path.along (front ++ names) := by
    rw [Path.along, Path.along, List.foldl_append]
  obtain ⟨more, rfl⟩ : ∃ more, names = child.1 :: more := by
    cases hlies with
    | here h => exact ⟨[], by rw [← List.mem_singleton.1 h]⟩
    | within h _ _ => exact ⟨_, by rw [← List.mem_singleton.1 h]⟩
  refine ⟨more, ?_⟩
  rw [hpath, withSlashes_eq (Path.backslash_not_mem_along hnames), Path.steps_along hnames]

/-- **A walk meets no path twice.** -/
theorem pairwise_filesAmong (hn : Named e) : ∀ {children front}, e = .folder children →
    (∀ name ∈ front, Path.IsName name) →
    (filesAmong (Path.along front) children).Pairwise fun f g => f.path ≠ g.path := by
  -- over the directories of the tree; files and links have nothing below them
  induction hn with
  | file => exact fun h => nomatch h
  | broken => exact fun h => nomatch h
  | link _ _ => exact fun h => nomatch h
  | @folder children hapart hchildren ih =>
      rintro _ front ⟨⟩ hfront
      rw [filesAmong_eq_flatMap, List.pairwise_flatMap]
      constructor
      · rintro ⟨name, content | inner | target⟩ hchild
        · exact List.pairwise_singleton _ _
        · rw [filesAt]
          split
          · exact List.Pairwise.nil
          · rw [← Path.along_concat]
            exact ih _ hchild rfl (List.forall_mem_append.2
              ⟨hfront, List.forall_mem_singleton.2 (hapart.isName _ hchild)⟩)
        · exact List.Pairwise.nil
      · refine (List.pairwise_map.1 hapart.nodup).imp_of_mem ?_
        intro child other hchild hother hne f hf g hg heq
        -- the paths agree up to these names, so they differ there
        obtain ⟨more, hmore⟩ := steps_of_mem_filesAt (.folder hapart hchildren) hfront hchild hf
        obtain ⟨others, hothers⟩ := steps_of_mem_filesAt (.folder hapart hchildren) hfront hother hg
        rw [heq, hothers] at hmore
        exact hne (List.cons_eq_cons.1 (List.append_cancel_left hmore)).1.symm

end Entry

/-! ### Enumerations -/

/-- The files of a directory that a walk is asked for, in the order of the bytes of their paths: those that
are accepted and do not lie below an ignored directory. -/
structure Enumerates (children : List (String × Entry)) (accept : String → Bool)
    (all : List FoundFile) : Prop where
  mem_iff : ∀ f, f ∈ all ↔ ∃ content names, Entry.HoldsAt content children names ∧
    (∀ folder ∈ names.dropLast, folder ∉ ignoredFolders) ∧
    f = ⟨"/".intercalate names, .file content⟩ ∧ accept f.path = true
  ascending : all.Pairwise fun f g => Text.bytes f.path < Text.bytes g.path

variable {children others : List (String × Entry)} {accept : String → Bool}
  {all rest : List FoundFile} {tree e : Entry} {root : String}

/-- **There is one such list**, and what the directory holds decides about it. -/
theorem Enumerates.eq_of_holdsAt (h : Enumerates children accept all)
    (hothers : Enumerates others accept rest)
    (hholds : ∀ content names, Entry.HoldsAt content others names ↔
      Entry.HoldsAt content children names) : all = rest := by
  have : Std.Irrefl fun f g : FoundFile => Text.bytes f.path < Text.bytes g.path :=
    ⟨fun _ => List.lt_irrefl _⟩
  have : Std.Antisymm fun f g : FoundFile => Text.bytes f.path < Text.bytes g.path :=
    ⟨fun _ _ hlt hgt => absurd hgt (List.lt_asymm hlt)⟩
  refine h.ascending.eq_of_mem_iff hothers.ascending fun f => ?_
  rw [h.mem_iff, hothers.mem_iff]
  simp only [hholds]

/-- The list that a walk takes the first files of. -/
def acceptedFiles (children : List (String × Entry)) (accept : String → Bool) : List FoundFile :=
  ((Entry.filesAmong "" children).filter fun f => accept f.path).mergeSort fun a b =>
    decide (a.path ≤ b.path)

theorem collectFiles_eq (hroot : tree.find root = .ok (.folder children)) (most : Nat) :
    collectFiles tree root most accept = .ok ((acceptedFiles children accept).take most) := by
  rw [collectFiles, hroot]
  rfl

theorem enumerates_acceptedFiles (hn : Entry.Named (.folder children)) (accept : String → Bool) :
    Enumerates children accept (acceptedFiles children accept) := by
  constructor
  · intro f
    rw [acceptedFiles, List.mem_mergeSort, List.mem_filter, Entry.mem_filesAmong_iff hn]
    simp only [Entry.liesAt_iff]
    constructor
    · rintro ⟨⟨content, names, ⟨hholds, hentered⟩, rfl⟩, haccept⟩
      exact ⟨content, names, hholds, hentered, rfl, haccept⟩
    · rintro ⟨content, names, hholds, hentered, rfl, haccept⟩
      exact ⟨⟨content, names, ⟨hholds, hentered⟩, rfl⟩, haccept⟩
  · have hdiffer : (acceptedFiles children accept).Pairwise fun f g => f.path ≠ g.path :=
      ((List.mergeSort_perm _ _).pairwise_iff Ne.symm).2
        ((Entry.pairwise_filesAmong hn rfl (List.forall_mem_nil _)).filter _)
    have hsorted : (acceptedFiles children accept).Pairwise fun f g => f.path ≤ g.path := by
      refine (List.pairwise_mergeSort (fun f g h => ?_) (fun f g => ?_) _).imp of_decide_eq_true
      · simpa only [decide_eq_true_eq] using String.le_trans
      · simpa only [Bool.or_eq_true, decide_eq_true_eq] using String.le_total f.path g.path
    exact (hsorted.and hdiffer).imp fun h => Text.lt_iff_bytes_lt.1 (Std.lt_of_le_of_ne h.1 h.2)

/-- **A walk returns the first files of one list.** It is the same list for any number of files, so fewer files
are a start of more files, and it is the same list for any other directory that holds the same files, in
whatever order entries are listed and whatever links there are. -/
theorem collectFiles_enumerates (hn : tree.Named) (hroot : tree.find root = .ok (.folder children))
    (accept : String → Bool) :
    ∃ all, Enumerates children accept all ∧
      (∀ most, collectFiles tree root most accept = .ok (all.take most)) ∧
      (∀ less more fewer files, less ≤ more → collectFiles tree root less accept = .ok fewer →
        collectFiles tree root more accept = .ok files → fewer <+: files) ∧
      ∀ other otherRoot others, other.Named → other.find otherRoot = .ok (.folder others) →
        (∀ content names, Entry.HoldsAt content others names ↔
          Entry.HoldsAt content children names) →
        ∀ most, collectFiles other otherRoot most accept = collectFiles tree root most accept := by
  have hall := enumerates_acceptedFiles (Entry.Everywhere.find hn hroot) accept
  refine ⟨acceptedFiles children accept, hall, collectFiles_eq hroot, ?_, ?_⟩
  · intro less more fewer files hle hfewer hfiles
    rw [collectFiles_eq hroot, Except.ok.injEq] at hfewer hfiles
    rw [← hfewer, ← hfiles]
    exact List.take_prefix_take_left hle
  · intro other otherRoot others hother hotherRoot hholds most
    have hothers := enumerates_acceptedFiles (Entry.Everywhere.find hother hotherRoot) accept
    rw [collectFiles_eq hroot, collectFiles_eq hotherRoot, hall.eq_of_holdsAt hothers hholds]

instance (name : String) : Decidable (Path.IsName name) :=
  decidable_of_iff (name ≠ "" ∧ name ≠ "." ∧ name ≠ ".." ∧ '/' ∉ name.toList ∧ '\\' ∉ name.toList)
    ⟨fun h => ⟨h.1, h.2.1, h.2.2.1, h.2.2.2.1, h.2.2.2.2⟩, fun h => ⟨h.1, h.2, h.3, h.4, h.5⟩⟩

/-- A directory in which names go on with each of the characters around a slash, with a directory that is not
entered and a link. Its entries are listed in the order of the paths, which is not that of the names. -/
def crossing : List (String × Entry) :=
  [("a-b", .folder [("c.py", .file .empty)]), ("a.py", .file .empty),
    ("a", .folder [("b.py", .file .empty), ("build", .file .empty),
      ("node_modules", .folder [("d.py", .file .empty)])]),
    ("e.py", .link (some (.file .empty)))]

theorem named_crossing : Entry.Named (.folder crossing) := by
  have hinner : ∀ child ∈ crossing, child.2.Named := by
    refine List.forall_mem_cons.2 ⟨?_, List.forall_mem_cons.2 ⟨.file trivial,
      List.forall_mem_cons.2 ⟨?_, List.forall_mem_singleton.2 (.link (.file trivial))⟩⟩⟩
    · exact .folder ⟨by decide, by decide⟩ (List.forall_mem_singleton.2 (.file trivial))
    · refine .folder ⟨by decide, by decide⟩ (List.forall_mem_cons.2 ⟨.file trivial,
        List.forall_mem_cons.2 ⟨.file trivial, List.forall_mem_singleton.2 ?_⟩⟩)
      exact .folder ⟨by decide, by decide⟩ (List.forall_mem_singleton.2 (.file trivial))
  exact .folder ⟨by decide, by decide⟩ hinner

theorem acceptedFiles_crossing : acceptedFiles crossing (fun _ => true) =
    [⟨"a-b/c.py", .file .empty⟩, ⟨"a.py", .file .empty⟩, ⟨"a/b.py", .file .empty⟩,
      ⟨"a/build", .file .empty⟩] := by
  have hbelow : Entry.filesAmong "" crossing =
      [⟨"a-b/c.py", .file .empty⟩, ⟨"a.py", .file .empty⟩, ⟨"a/b.py", .file .empty⟩,
        ⟨"a/build", .file .empty⟩] := by
    simp only [crossing, Entry.filesAmong]
    rfl
  rw [acceptedFiles, hbelow, List.filter_true]
  exact List.mergeSort_of_pairwise (by decide)

/-- The same entries, listed the other way round, are returned in the same order. -/
theorem collectFiles_enumerates_crossing :
    Entry.Named (.folder crossing) ∧ Entry.find (.folder crossing) "." = .ok (.folder crossing) ∧
      ∀ most, collectFiles (.folder crossing.reverse) "." most (fun _ => true) =
        .ok (List.take most [⟨"a-b/c.py", .file .empty⟩, ⟨"a.py", .file .empty⟩,
          ⟨"a/b.py", .file .empty⟩, ⟨"a/build", .file .empty⟩]) := by
  have hfind : Entry.find (.folder crossing) "." = .ok (.folder crossing) := rfl
  have hreverse : Entry.Named (.folder crossing.reverse) := by
    cases named_crossing with
    | folder hapart hchildren =>
        refine .folder ⟨?_, fun child h => hapart.isName child (List.mem_reverse.1 h)⟩
          fun child h => hchildren child (List.mem_reverse.1 h)
        rw [List.map_reverse]
        exact List.nodup_reverse.2 hapart.nodup
  have hholds : ∀ content names, Entry.HoldsAt content crossing.reverse names ↔
      Entry.HoldsAt content crossing names := fun content names =>
    ⟨fun h => h.mono fun _ => List.mem_reverse.1, fun h => h.mono fun _ => List.mem_reverse.2⟩
  obtain ⟨-, -, -, -, hsame⟩ := collectFiles_enumerates named_crossing hfind fun _ => true
  refine ⟨named_crossing, hfind, fun most => ?_⟩
  rw [hsame _ "." _ hreverse rfl hholds most, collectFiles_eq hfind, acceptedFiles_crossing]

end StyleContract
