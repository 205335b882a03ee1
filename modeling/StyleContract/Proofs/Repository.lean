import StyleContract.Proofs.Text.Spans
import StyleContract.Repository

/-!
# Proofs — Repository

Which texts name a repository. A text that does is a start, the owner, a slash, the name, any number of
`.git` and a further path (`Names`), with white space around. Each part of the reader is told by what it
takes apart: the start that is dropped (`afterStart?_gitHubStarts`, `exists_of_afterStart?`), the endings
of the name (`dropEnds_append`, `exists_of_dropEnds`), and the slashes behind a further path, which leave a
further path or nothing (`OpensPath.mono`).

**What is read of the trimmed text is what it names** (`ofText_eq_gitHub_iff`), so every way to write an
owner and a name gives these two, the address that is made of them included (`locator_grammar`).
-/

namespace StyleContract.Locator

open Text (isBlank trim trimChars dropTailWhile takeWhile_append_of_head drop_length_takeWhile
  all_head?_dropWhile exists_dropTailWhile_append dropTailWhile_append_cons prefix_dropTailWhile)

variable {s owner repo : String} {cs ds path tail : List Char} {n fuel : Nat}

theorem forall_of_any_eq_false {p : Char → Bool} (h : cs.any p = false) : ∀ c ∈ cs, p c = false :=
  fun c hc => Bool.eq_false_iff.2 (List.any_eq_false.1 h c hc)

/-! ### The start -/

theorem afterStart?_cons (start : String) (starts : List String) (cs : List Char) :
    afterStart? (start.toList ++ cs) (start :: starts) = some cs := by
  have hprefix : start.toList <+: start.toList ++ cs := List.prefix_append _ _
  rw [afterStart?, if_pos (List.isPrefixOf_iff_prefix.2 hprefix), ← String.length_toList, List.drop_left]

theorem afterStart?_cons_of_not {start : String} (h : start.toList.isPrefixOf cs = false)
    (starts : List String) : afterStart? cs (start :: starts) = afterStart? cs starts := by
  rw [afterStart?, if_neg (by simp [h])]

/-- The start of a text that goes on with an owner is dropped, whichever start it is. -/
theorem afterStart?_gitHubStarts {start : String} (hstart : start ∈ gitHubStarts)
    (hcs : cs.head? ≠ some '/') : afterStart? (start.toList ++ cs) gitHubStarts = some cs := by
  simp only [gitHubStarts, List.mem_cons, List.not_mem_nil, or_false] at hstart
  rcases hstart with rfl | rfl | rfl | rfl
  · exact afterStart?_cons _ _ cs
  · rw [gitHubStarts, afterStart?_cons_of_not rfl]
    exact afterStart?_cons _ _ cs
  · rw [gitHubStarts, afterStart?_cons_of_not rfl, afterStart?_cons_of_not rfl]
    exact afterStart?_cons _ _ cs
  · -- the start in front of this one is the same with two slashes more
    have hslashes : "github://".toList.isPrefixOf ("github:".toList ++ cs) = false := by
      cases cs with
      | nil => rfl
      | cons c cs =>
          have hc : '/' ≠ c := by
            rintro rfl
            exact hcs rfl
          simp [List.isPrefixOf, hc]
    rw [gitHubStarts, afterStart?_cons_of_not rfl, afterStart?_cons_of_not rfl,
      afterStart?_cons_of_not hslashes]
    exact afterStart?_cons _ _ cs

theorem exists_of_afterStart? {starts : List String} (h : afterStart? cs starts = some ds) :
    ∃ start ∈ starts, cs = start.toList ++ ds := by
  induction starts with
  | nil => cases h
  | cons start starts ih =>
      rw [afterStart?] at h
      split at h
      · next hprefix =>
        obtain ⟨rest, rfl⟩ := List.isPrefixOf_iff_prefix.1 hprefix
        rw [← String.length_toList, List.drop_left] at h
        exact ⟨start, List.mem_cons_self, by rw [Option.some.inj h]⟩
      · obtain ⟨other, hmem, heq⟩ := ih h
        exact ⟨other, List.mem_cons_of_mem _ hmem, heq⟩

/-! ### The endings of the name -/

/-- An ending, any number of times. -/
def endings (tail : List Char) (n : Nat) : List Char := (List.replicate n tail).flatten

theorem endings_succ (tail : List Char) (n : Nat) : endings tail (n + 1) = endings tail n ++ tail := by
  rw [endings, List.replicate_succ', List.flatten_concat, endings]

theorem forall_mem_endings {P : Char → Prop} (h : ∀ c ∈ tail, P c) : ∀ c ∈ endings tail n, P c := by
  intro c hc
  obtain ⟨part, hpart, hmem⟩ := List.mem_flatten.1 hc
  rw [List.eq_of_mem_replicate hpart] at hmem
  exact h c hmem

/-- All endings are dropped, and nothing else. -/
theorem dropEnds_append (hcs : ¬ tail <:+ cs) (hn : n ≤ fuel) :
    dropEnds tail fuel (cs ++ endings tail n) = cs := by
  have hstop (fuel : Nat) : dropEnds tail fuel cs = cs := by
    cases fuel with
    | zero => rfl
    | succ fuel => rw [dropEnds, if_neg (by simpa using hcs)]
  induction n generalizing fuel with
  | zero => simpa [endings] using hstop fuel
  | succ n ih =>
      cases fuel with
      | zero => cases hn
      | succ fuel =>
          have hsuffix : tail <:+ cs ++ endings tail n ++ tail := List.suffix_append _ _
          rw [endings_succ, ← List.append_assoc, dropEnds, if_pos (List.isSuffixOf_iff_suffix.2 hsuffix),
            List.length_append, Nat.add_sub_cancel, List.take_left]
          exact ih (Nat.le_of_succ_le_succ hn)

theorem exists_of_dropEnds (htail : tail ≠ []) (hfuel : cs.length ≤ fuel) :
    ¬ tail <:+ dropEnds tail fuel cs ∧ ∃ n, cs = dropEnds tail fuel cs ++ endings tail n := by
  induction fuel generalizing cs with
  | zero =>
      obtain rfl : cs = [] := List.eq_nil_of_length_eq_zero (Nat.le_zero.1 hfuel)
      exact ⟨fun h => htail (List.suffix_nil.1 h), 0, rfl⟩
  | succ fuel ih =>
      rw [dropEnds]
      split
      · next hsuffix =>
        obtain ⟨front, rfl⟩ := List.isSuffixOf_iff_suffix.1 hsuffix
        rw [List.length_append, Nat.add_sub_cancel, List.take_left]
        have hpos : 0 < tail.length := List.length_pos_iff.2 htail
        rw [List.length_append] at hfuel
        obtain ⟨hnot, n, heq⟩ := @ih front (by omega)
        refine ⟨hnot, n + 1, ?_⟩
        rw [endings_succ, ← List.append_assoc, ← heq]
      · next hnot =>
        refine ⟨fun h => hnot (List.isSuffixOf_iff_suffix.2 h), 0, ?_⟩
        exact (List.append_nil cs).symm

/-! ### The owner and the name -/

/-- An owner and a name that can be told apart from what is around them. -/
structure IsRepository (owner repo : String) : Prop where
  owner_ne : owner ≠ ""
  repo_ne : repo ≠ ""
  owner_flat : '/' ∉ owner.toList
  repo_flat : '/' ∉ repo.toList
  repo_bare : ¬ ".git".toList <:+ repo.toList

/-- A further path, or nothing. -/
def OpensPath (path : List Char) : Prop := path.head?.all (· == '/') = true

theorem OpensPath.mono (h : OpensPath path) (hds : ds <+: path) : OpensPath ds := by
  obtain ⟨rest, rfl⟩ := hds
  cases ds with
  | nil => rfl
  | cons d ds => exact h

/-- The name with its endings. -/
def nameText (repo : String) (n : Nat) : List Char := repo.toList ++ endings ".git".toList n

theorem forall_mem_nameText {P : Char → Prop} (hrepo : ∀ c ∈ repo.toList, P c)
    (hending : ∀ c ∈ ".git".toList, P c) : ∀ c ∈ nameText repo n, P c :=
  List.forall_mem_append.2 ⟨hrepo, forall_mem_endings hending⟩

/-- The last character of the name with its endings is one of the name or of an ending. -/
theorem exists_nameText_eq {P : Char → Prop} (hne : repo ≠ "") (hrepo : ∀ c ∈ repo.toList, P c)
    (hending : ∀ c ∈ ".git".toList, P c) (n : Nat) :
    ∃ front d, nameText repo n = front ++ [d] ∧ P d := by
  have hne' : nameText repo n ≠ [] :=
    List.append_ne_nil_of_left_ne_nil (fun h => hne (String.toList_inj.1 h)) _
  refine ⟨_, _, (List.dropLast_append_getLast hne').symm, ?_⟩
  exact forall_mem_nameText hrepo hending _ (List.getLast_mem hne')

/-- The owner, the name with its endings, and a further path. -/
def coreText (owner repo : String) (n : Nat) (path : List Char) : List Char :=
  owner.toList ++ '/' :: (nameText repo n ++ path)

theorem IsRepository.head?_coreText (h : IsRepository owner repo) :
    (coreText owner repo n path).head? ≠ some '/' := by
  have hne : owner.toList ≠ [] := fun hnil => h.owner_ne (String.toList_inj.1 hnil)
  rw [coreText, List.head?_append_of_ne_nil _ hne]
  exact fun hhead => h.owner_flat (List.mem_of_head? hhead)

/-- At the end nothing is dropped but a part of the further path. -/
theorem dropTailWhile_coreText {p : Char → Bool} (hne : repo ≠ "")
    (hrepo : ∀ c ∈ repo.toList, p c = false) (hending : ∀ c ∈ ".git".toList, p c = false)
    (cs : List Char) : dropTailWhile p (cs ++ coreText owner repo n path) =
      cs ++ coreText owner repo n (dropTailWhile p path) := by
  obtain ⟨front, d, hname, hd⟩ := exists_nameText_eq hne hrepo hending n
  have hfront (rest : List Char) :
      cs ++ coreText owner repo n rest = (cs ++ owner.toList ++ '/' :: front) ++ d :: rest := by
    simp [coreText, hname]
  rw [hfront, hfront, dropTailWhile_append_cons hd]

theorem ownerAndRepo?_coreText (h : IsRepository owner repo) (hpath : OpensPath path) :
    ownerAndRepo? (coreText owner repo n path) = some (owner, repo) := by
  have hflat : ∀ c ∈ repo.toList, (c == '/') = false := fun c hc =>
    beq_false_of_ne fun heq => h.repo_flat (heq ▸ hc)
  have howner : ∀ c ∈ owner.toList, (c != '/') = true := fun c hc =>
    bne_iff_ne.2 fun heq => h.owner_flat (heq ▸ hc)
  have hname : ∀ c ∈ nameText repo n, (c != '/') = true :=
    forall_mem_nameText (fun c hc => by simpa using hflat c hc) (by simp)
  have hslashes : dropTailWhile (· == '/') (coreText owner repo n path) =
      coreText owner repo n (dropTailWhile (· == '/') path) :=
    dropTailWhile_coreText h.repo_ne hflat (forall_of_any_eq_false (by decide)) []
  have hrest := hpath.mono (prefix_dropTailWhile (· == '/') path)
  have htake : (coreText owner repo n (dropTailWhile (· == '/') path)).takeWhile (· != '/') =
      owner.toList := takeWhile_append_of_head howner rfl
  have hrepo : (nameText repo n ++ dropTailWhile (· == '/') path).takeWhile (· != '/') =
      nameText repo n := by
    refine takeWhile_append_of_head hname ?_
    simpa [OpensPath, bne] using hrest
  have hends : dropEnds ".git".toList (nameText repo n).length (nameText repo n) = repo.toList := by
    refine dropEnds_append h.repo_bare ?_
    simp [nameText, endings]
    omega
  have hempty : owner.toList.isEmpty = false ∧ repo.toList.isEmpty = false := by
    simp [h.owner_ne, h.repo_ne]
  simp only [ownerAndRepo?, hslashes, htake]
  rw [coreText, List.drop_left]
  simp only [hrepo, hends, hempty, Bool.or_self, Bool.false_eq_true, if_false, String.ofList_toList]

/-- A further path goes on with slashes. -/
theorem OpensPath.append (h : OpensPath path) (hds : ∀ c ∈ ds, (c == '/') = true) :
    OpensPath (path ++ ds) := by
  cases path with
  | cons c path => exact h
  | nil =>
      cases ds with
      | nil => rfl
      | cons d ds => exact hds d List.mem_cons_self

/-- What is read has been parted by the first two slashes, and the slashes at the end do not count. -/
theorem exists_of_ownerAndRepo? (h : ownerAndRepo? cs = some (owner, repo)) :
    IsRepository owner repo ∧ ∃ n path, OpensPath path ∧ cs = coreText owner repo n path := by
  have hflat (ds : List Char) : '/' ∉ ds.takeWhile (· != '/') := fun hmem => by
    simpa using List.mem_takeWhile_imp hmem
  have hopens (ds : List Char) : OpensPath (ds.dropWhile (· != '/')) := by
    simpa [OpensPath, bne] using all_head?_dropWhile (· != '/') ds
  obtain ⟨slashes, hcs, hslashes⟩ := exists_dropTailWhile_append (· == '/') cs
  obtain ⟨front, hfront⟩ : ∃ front, front = dropTailWhile (· == '/') cs := ⟨_, rfl⟩
  rw [ownerAndRepo?, ← hfront] at h
  dsimp only at h
  rw [drop_length_takeWhile] at h
  split at h
  · cases h
  · next c rest hrest =>
    obtain rfl : c = '/' := by simpa [OpensPath, hrest] using hopens front
    split at h
    · cases h
    · next hempty =>
      obtain ⟨name, hname⟩ : ∃ name, name = rest.takeWhile (· != '/') := ⟨_, rfl⟩
      rw [← hname] at h hempty
      have hgit : ".git".toList ≠ [] := by decide
      obtain ⟨hbare, n, hends⟩ := exists_of_dropEnds hgit (Nat.le_refl name.length)
      rw [Bool.or_eq_true, List.isEmpty_iff, List.isEmpty_iff, not_or] at hempty
      obtain ⟨rfl, rfl⟩ := Prod.mk.inj (Option.some.inj h)
      have hparts : cs = front.takeWhile (· != '/') ++ '/' :: (name ++
          (rest.dropWhile (· != '/') ++ slashes)) := by
        rw [hname, ← List.append_assoc (rest.takeWhile _), List.takeWhile_append_dropWhile,
          ← List.cons_append, ← hrest, ← List.append_assoc, List.takeWhile_append_dropWhile, hfront]
        exact hcs
      refine ⟨⟨?_, ?_, ?_, ?_, ?_⟩, n, _, (hopens rest).append hslashes, ?_⟩
      · simpa using hempty.1
      · simpa using hempty.2
      · rw [String.toList_ofList]
        exact hflat front
      · rw [String.toList_ofList]
        exact fun hmem => hflat rest (hname ▸ hends ▸ List.mem_append_left _ hmem)
      · rwa [String.toList_ofList (l := dropEnds _ _ _)]
      · rw [coreText, nameText, String.toList_ofList, String.toList_ofList, ← hends]
        exact hparts

/-! ### Texts -/

/-- The trimmed text of a repository: a start, the owner, the name with its endings, and a further path. -/
def Names (s owner repo : String) : Prop :=
  ∃ start ∈ gitHubStarts, ∃ n path, OpensPath path ∧
    s.toList = start.toList ++ coreText owner repo n path

/-- A text is a repository if something is read behind its start. -/
theorem ofText_eq_gitHub : ofText s = .gitHub owner repo ↔
    (afterStart? (trim s).toList gitHubStarts).bind ownerAndRepo? = some (owner, repo) := by
  rw [ofText]
  split
  · next hread => simp [hread]
  · next hread => simp [hread]

/-- **A text is read as a repository** if and only if it names it, once it is trimmed. -/
theorem ofText_eq_gitHub_iff : ofText s = .gitHub owner repo ↔
    IsRepository owner repo ∧ Names (trim s) owner repo := by
  rw [ofText_eq_gitHub, Option.bind_eq_some_iff]
  constructor
  · rintro ⟨ds, hds, hread⟩
    obtain ⟨start, hstart, htext⟩ := exists_of_afterStart? hds
    obtain ⟨hrepository, n, path, hpath, rfl⟩ := exists_of_ownerAndRepo? hread
    exact ⟨hrepository, start, hstart, n, path, hpath, htext⟩
  · rintro ⟨hrepository, start, hstart, n, path, hpath, htext⟩
    rw [htext]
    exact ⟨_, afterStart?_gitHubStarts hstart hrepository.head?_coreText,
      ownerAndRepo?_coreText hrepository hpath⟩

/-- Any other text is a directory. -/
theorem ofText_eq_folder (h : ∀ owner repo, ofText s ≠ .gitHub owner repo) :
    ofText s = .folder (trim s) := by
  rw [ofText] at h ⊢
  split
  · next owner repo hread =>
    rw [hread] at h
    exact absurd rfl (h owner repo)
  · rfl

/-! ### Spellings -/

/-- A way to write an owner and a name. -/
structure Spelling where
  before : String := ""
  start : String
  suffixes : Nat := 0
  path : Option String := none
  slashes : Nat := 0
  after : String := ""
  start_mem : start ∈ gitHubStarts := by decide
  before_blank : before.toList.all isBlank = true := by decide
  after_blank : after.toList.all isBlank = true := by decide

/-- White space, the start, the owner, a slash, the name, `.git` as often as is said, a slash and a further
path if there is one, slashes, and white space. -/
def Spelling.text (p : Spelling) (owner repo : String) : String :=
  p.before ++ p.start ++ owner ++ "/" ++ repo ++ String.join (List.replicate p.suffixes ".git") ++
    (p.path.elim "" fun path => "/" ++ path) ++ String.ofList (List.replicate p.slashes '/') ++ p.after

/-- What a spelling has behind the name. -/
def Spelling.rest (p : Spelling) : List Char :=
  (p.path.elim "" fun path => "/" ++ path).toList ++ List.replicate p.slashes '/'

theorem Spelling.opensPath_rest (p : Spelling) : OpensPath p.rest := by
  have hpath : OpensPath (p.path.elim "" fun path => "/" ++ path).toList := by
    cases p.path with
    | none => rfl
    | some path =>
        rw [Option.elim_some, String.toList_append]
        rfl
  exact hpath.append fun c hc => by simp [List.eq_of_mem_replicate hc]

theorem Spelling.toList_text (p : Spelling) (owner repo : String) :
    (p.text owner repo).toList =
      p.before.toList ++ ((p.start.toList ++ coreText owner repo p.suffixes p.rest) ++ p.after.toList) := by
  have hendings : (String.join (List.replicate p.suffixes ".git")).toList =
      endings ".git".toList p.suffixes := by
    rw [String.toList_join, List.flatMap_replicate, endings]
  simp only [text, String.toList_append, hendings, String.toList_ofList]
  simp [coreText, nameText, rest]

theorem exists_start_eq_cons {start : String} (h : start ∈ gitHubStarts) :
    ∃ c cs, start.toList = c :: cs ∧ isBlank c = false := by
  simp only [gitHubStarts, List.mem_cons, List.not_mem_nil, or_false] at h
  rcases h with rfl | rfl | rfl | rfl
  · exact ⟨'h', _, rfl, rfl⟩
  · exact ⟨'h', _, rfl, rfl⟩
  · exact ⟨'g', _, rfl, rfl⟩
  · exact ⟨'g', _, rfl, rfl⟩

/-- Trimming leaves the owner and the name, and some of the further path. -/
theorem Spelling.names (p : Spelling) (hne : repo ≠ "")
    (hblank : ∀ c ∈ repo.toList, isBlank c = false) : Names (trim (p.text owner repo)) owner repo := by
  obtain ⟨c, cs, hc, hfirst⟩ := exists_start_eq_cons p.start_mem
  have hfront : (p.start.toList ++ coreText owner repo p.suffixes p.rest).dropWhile isBlank =
      p.start.toList ++ coreText owner repo p.suffixes p.rest := by
    rw [hc, List.cons_append, List.dropWhile_cons_of_neg (by simp [hfirst])]
  refine ⟨p.start, p.start_mem, p.suffixes, dropTailWhile isBlank p.rest,
    p.opensPath_rest.mono (prefix_dropTailWhile _ _), ?_⟩
  rw [trim, String.toList_ofList, p.toList_text, Text.trimChars_append (List.all_eq_true.1 p.before_blank)
      (List.all_eq_true.1 p.after_blank), trimChars, hfront,
    dropTailWhile_coreText hne hblank (forall_of_any_eq_false (by decide))]

/-- **Every way to write an owner and a name gives them**, whatever white space is around. -/
theorem ofText_text (p : Spelling) (h : IsRepository owner repo)
    (hblank : ∀ c ∈ repo.toList, isBlank c = false) : ofText (p.text owner repo) = .gitHub owner repo :=
  ofText_eq_gitHub_iff.2 ⟨h, p.names h.repo_ne hblank⟩

/-- The address of a repository is one of its spellings. -/
theorem text_address (owner repo : String) :
    (Spelling.text { start := "https://github.com/" } owner repo) =
      "https://github.com/" ++ owner ++ "/" ++ repo := by
  simp [Spelling.text]

/-- **The grammar of locators.** An owner, and a name without white space, are read from all their
spellings, of which the address is one. A text is read as a repository if and only if it names it once it is
trimmed, and then its start is one of the four; any other text is a directory. -/
theorem locator_grammar :
    (∀ owner repo, IsRepository owner repo → (∀ c ∈ repo.toList, isBlank c = false) →
      (∀ p : Spelling, ofText (p.text owner repo) = .gitHub owner repo) ∧
        ∃ address, (gitHub owner repo).remote? = some address ∧ ofText address = .gitHub owner repo) ∧
    (∀ s owner repo, ofText s = .gitHub owner repo ↔
      IsRepository owner repo ∧ Names (trim s) owner repo) ∧
    (∀ s owner repo, ofText s = .gitHub owner repo →
      ∃ start ∈ gitHubStarts, start.toList <+: (trim s).toList) ∧
    ∀ s, (∀ owner repo, ofText s ≠ .gitHub owner repo) → ofText s = .folder (trim s) := by
  refine ⟨fun owner repo h hblank => ?_, fun s owner repo => ofText_eq_gitHub_iff, fun s owner repo h => ?_,
    fun s => ofText_eq_folder⟩
  · refine ⟨fun p => ofText_text p h hblank, _, rfl, ?_⟩
    rw [← text_address]
    exact ofText_text _ h hblank
  · obtain ⟨-, start, hstart, n, path, -, htext⟩ := ofText_eq_gitHub_iff.1 h
    rw [htext]
    exact ⟨start, hstart, List.prefix_append _ _⟩

theorem isRepository_pages : IsRepository "octo" "octo.github.io" :=
  ⟨by decide, by decide, by decide, by decide, by decide⟩

/-- White space on both sides, two endings, and a further path with blanks and slashes at its end. -/
def pagesSpelling : Spelling where
  before := "\t "
  start := "github:"
  suffixes := 2
  path := some "tree/main "
  slashes := 2
  after := " \n"

theorem locator_grammar_pages :
    IsRepository "octo" "octo.github.io" ∧ (∀ c ∈ "octo.github.io".toList, isBlank c = false) ∧
      ofText "\t github:octo/octo.github.io.git.git/tree/main // \n" = .gitHub "octo" "octo.github.io" ∧
      ofText "https://github.com/octo/octo.github.io" = .gitHub "octo" "octo.github.io" ∧
      ofText "github:octo" = .folder "github:octo" := by
  have hblank : ∀ c ∈ "octo.github.io".toList, isBlank c = false :=
    forall_of_any_eq_false (by decide)
  obtain ⟨hspellings, hgrammar, -, hfolder⟩ := locator_grammar
  obtain ⟨htext, address, haddress, hread⟩ := hspellings _ _ isRepository_pages hblank
  have hpages : pagesSpelling.text "octo" "octo.github.io" =
      "\t github:octo/octo.github.io.git.git/tree/main // \n" := by decide
  refine ⟨isRepository_pages, hblank, hpages ▸ htext pagesSpelling, ?_, ?_⟩
  · cases haddress
    exact hread
  · have hnone : (afterStart? (trim "github:octo").toList gitHubStarts).bind ownerAndRepo? = none := by
      decide
    refine (hfolder _ fun owner repo h => ?_).trans (congrArg folder (by decide))
    rw [ofText_eq_gitHub, hnone] at h
    cases h

end StyleContract.Locator
