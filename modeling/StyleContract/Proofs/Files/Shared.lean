import StyleContract.Files.Shared
import StyleContract.Proofs.Files.Write

/-!
# Proofs — Files — Shared

What those who share a file can see of each other. Files that are being written have names and numbers
of their own (`Apart`), so **a file that nobody writes to keeps its content** (`Step.entries_eq`); the
target is such a file, and so is every file that was opened at the target. What holds at any time
(`Inv`) follows from this move by move (`Inv.step`), and for runs by induction (`Reach.inv`).

**Nobody reads a part of a contract, and the last one to replace it wins** (`reads_whole`). When all are
done, the directory is what the last of them would have left alone (`persist_of_latest`).
-/

namespace StyleContract.SharedFolder

open Function (update)

/-! ### Owners -/

section

variable {W R : Type} {s t : SharedFolder W R} {number : Nat}

/-- Somebody has a file that is not given its final name yet. -/
def Owns (s : SharedFolder W R) (w : W) (name : String) (number : Nat) : Prop :=
  (s.writers w).own? = some (name, number)

/-- Nobody writes to an entry any more. -/
structure Settled (s : SharedFolder W R) (number : Nat) : Prop where
  lt : number < s.next
  not_owns : ∀ w name, ¬ s.Owns w name number

/-- Names and numbers are kept apart: those who fill a file have it for themselves. -/
structure Apart (target : String) (s : SharedFolder W R) : Prop where
  lt : ∀ name number, s.names name = some number → number < s.next
  named : ∀ w name number, s.Owns w name number → name ≠ target ∧ s.names name = some number
  only : ∀ w name number other, s.Owns w name number → s.names other = some number → other = name
  alone : ∀ w v name number number', s.Owns w name number → s.Owns v name number' → w = v

/-- What a move does to names and owners. -/
inductive Moves [DecidableEq W] (target : String) (s t : SharedFolder W R) : Prop where
  | keeps (hnames : t.names = s.names) (hnext : t.next = s.next)
      (howns : ∀ v name number, t.Owns v name number → s.Owns v name number)
  | creates {w : W} {name : String} (hfresh : s.names name = none) (hname : name ≠ target)
      (hnames : t.names = update s.names name (some s.next)) (hnext : t.next = s.next + 1)
      (howns : ∀ v other number, t.Owns v other number ↔
        if v = w then other = name ∧ number = s.next else s.Owns v other number)
  | drops {w : W} {name : String} {number : Nat} (hown : s.Owns w name number)
      (hnames : t.names = update s.names name none ∨
        t.names = update (update s.names name none) target (some number))
      (hnext : t.next = s.next)
      (howns : ∀ v other number, t.Owns v other number ↔ v ≠ w ∧ s.Owns v other number)

theorem Apart.settled_target {target : String} (h : Apart target s)
    (htarget : s.names target = some number) : s.Settled number where
  lt := h.lt target number htarget
  not_owns w name hown := (h.named w name number hown).1 (h.only w name number target hown htarget).symm

variable [DecidableEq W] {target : String}

theorem Apart.move (h : Apart target s) (hmove : Moves target s t) : Apart target t := by
  obtain ⟨hlt, hnamed, honly, halone⟩ := h
  cases hmove with
  | keeps hnames hnext howns =>
      rw [← hnames] at hlt hnamed honly
      exact ⟨hnext ▸ hlt, fun w name number hown => hnamed w name number (howns _ _ _ hown),
        fun w name number other hown => honly w name number other (howns _ _ _ hown),
        fun w v name number number' hw hv => halone w v name number number' (howns _ _ _ hw)
          (howns _ _ _ hv)⟩
  | creates hfresh hname hnames hnext howns =>
      constructor <;> simp only [hnames, hnext, howns, Function.update_apply] <;> grind
  | drops hown hnames hnext howns =>
      rcases hnames with hnames | hnames
      · constructor <;> simp only [hnames, hnext, howns, Function.update_apply] <;> grind
      · constructor <;> simp only [hnames, hnext, howns, Function.update_apply] <;> grind

/-- An entry that nobody writes to stays one. -/
theorem Settled.move (h : s.Settled number) (hmove : Moves target s t) : t.Settled number := by
  obtain ⟨hlt, hnot⟩ := h
  cases hmove with
  | keeps hnames hnext howns =>
      exact ⟨hnext ▸ hlt, fun w name hown => hnot w name (howns _ _ _ hown)⟩
  | creates hfresh hname hnames hnext howns =>
      constructor <;> simp only [hnext, howns] <;> grind
  | drops hown hnames hnext howns =>
      exact ⟨hnext ▸ hlt, fun w name hown => hnot w name ((howns _ _ _).1 hown).2⟩

end

/-! ### Moves -/

section

variable {W R : Type} [DecidableEq W] {target : String} {bytes : W → ByteArray}
  {s t start : SharedFolder W R} {w v : W} {r : R} {name : String} {number : Nat}
  {stage : WriteStage}

/-- A new stage changes the owner's own file only. -/
theorem owns_iff_of_writers (hwriters : t.writers = update s.writers w stage) :
    t.Owns v name number ↔
      if v = w then stage.own? = some (name, number) else s.Owns v name number := by
  rw [Owns, Owns, hwriters, Function.update_apply]
  split <;> rfl

/-- A new stage with no file or the same one. -/
theorem Moves.of_writers (hnames : t.names = s.names) (hnext : t.next = s.next)
    (hwriters : t.writers = update s.writers w stage)
    (hown : stage.own? = none ∨ stage.own? = (s.writers w).own?) : Moves target s t := by
  refine .keeps hnames hnext fun v other number howns => ?_
  rw [owns_iff_of_writers hwriters] at howns
  split at howns
  · next hv =>
    rcases hown with hnone | hsame
    · rw [hnone] at howns
      cases howns
    · rw [hv, Owns, ← hsame, howns]
  · exact howns

theorem WriterStep.moves (h : WriterStep target bytes w s t) : Moves target s t := by
  cases h with
  | create _ hfresh hname =>
      refine .creates (w := w) hfresh hname rfl rfl fun v other number => ?_
      rw [owns_iff_of_writers rfl]
      simp [WriteStage.own?, eq_comm]
  | write hstage _ => exact .of_writers rfl rfl rfl (.inr (by rw [hstage]; rfl))
  | flush hstage => exact .of_writers rfl rfl rfl (.inr (by rw [hstage]; rfl))
  | rename hstage _ _ =>
      refine .drops (w := w) (by rw [Owns, hstage]; rfl) (.inr rfl) rfl fun v other number => ?_
      rw [owns_iff_of_writers rfl]
      by_cases hv : v = w <;> simp [WriteStage.own?, hv]

theorem WriterFails.moves (h : WriterFails w s t) : Moves target s t := by
  cases h with
  | leave _ => exact .of_writers rfl rfl rfl (.inl rfl)
  | remove hown =>
      refine .drops (w := w) hown (.inl rfl) rfl fun v other number => ?_
      rw [owns_iff_of_writers rfl]
      by_cases hv : v = w <;> simp [WriteStage.own?, hv]

variable [DecidableEq R]

theorem Step.moves (h : Step target bytes s t) : Moves target s t := by
  cases h with
  | writes w h => exact h.moves
  | fails w h => exact h.moves
  | reads r h => cases h <;> exact .keeps rfl rfl fun _ _ _ hown => hown

/-- **A file that nobody writes to keeps its content.** -/
theorem Step.entries_eq (h : Step target bytes s t) (hsettled : s.Settled number) :
    t.entries number = s.entries number := by
  cases h with
  | writes w h =>
      cases h with
      | create _ _ _ => exact Function.update_of_ne (Nat.ne_of_lt hsettled.lt) _ _
      | @write name own _ _ _ hstage _ =>
          refine Function.update_of_ne (fun heq => hsettled.not_owns w name ?_) _ _
          rw [Owns, hstage, heq]
          rfl
      | flush | rename => rfl
  | fails w h => cases h <;> rfl
  | reads r h => cases h <;> rfl

/-! ### Files that are being written -/

/-- What was written and what is left make up all the bytes. -/
def Filled (bytes : W → ByteArray) (s : SharedFolder W R) : Prop :=
  ∀ w name number, s.Owns w name number →
    ∃ content, s.entries number = .file content ∧ content ++ (s.writers w).left = bytes w

omit [DecidableEq R] in
theorem Filled.of_writers (h : Filled bytes s) (hwriters : t.writers = update s.writers w stage)
    (hentries : ∀ v name number, v ≠ w → s.Owns v name number →
      t.entries number = s.entries number)
    (hown : ∀ name number, stage.own? = some (name, number) →
      ∃ content, t.entries number = .file content ∧ content ++ stage.left = bytes w) :
    Filled bytes t := by
  intro v name number howns
  rw [owns_iff_of_writers hwriters] at howns
  rw [hwriters, Function.update_apply]
  split at howns
  · next hv =>
    rw [if_pos hv, hv]
    exact hown name number howns
  · next hv =>
    rw [if_neg hv, hentries v name number hv howns]
    exact h v name number howns

theorem Filled.step (h : Filled bytes s) (hapart : Apart target s) (hstep : Step target bytes s t) :
    Filled bytes t := by
  cases hstep with
  | writes w hw =>
      cases hw with
      | create _ _ _ =>
          refine h.of_writers rfl (fun v name number _ hown => ?_) fun name number hown => ?_
          · have hlt := hapart.lt name number (hapart.named v name number hown).2
            exact Function.update_of_ne (Nat.ne_of_lt hlt) _ _
          · cases hown
            exact ⟨.empty, Function.update_self _ _ _, ByteArray.empty_append⟩
      | @write name own content piece rest hstage hentry =>
          have howns : s.Owns w name own := by rw [Owns, hstage]; rfl
          refine h.of_writers rfl (fun v other number hv hown => ?_) fun other number hown => ?_
          · refine Function.update_of_ne (fun heq => hv ?_) _ _
            have hname := hapart.only w name own other howns
              (heq ▸ (hapart.named v other number hown).2)
            exact hapart.alone v w name number own (hname ▸ hown) howns
          · cases hown
            obtain ⟨content', hentry', hall⟩ := h w name own howns
            cases hentry.symm.trans hentry'
            refine ⟨content ++ piece, Function.update_self _ _ _, ?_⟩
            rw [hstage] at hall
            rw [ByteArray.append_assoc]
            exact hall
      | @flush name own hstage =>
          refine h.of_writers rfl (fun _ _ _ _ _ => rfl) fun other number hown => ?_
          cases hown
          have howns : s.Owns w name own := by rw [Owns, hstage]; rfl
          obtain ⟨content, hentry, hall⟩ := h w name own howns
          rw [hstage] at hall
          exact ⟨content, hentry, hall⟩
      | rename => exact h.of_writers rfl (fun _ _ _ _ _ => rfl) fun _ _ hown => by cases hown
  | fails w hw =>
      cases hw <;> exact h.of_writers rfl (fun _ _ _ _ _ => rfl) fun _ _ hown => by cases hown
  | reads r hr => cases hr <;> exact h

/-! ### The target -/

/-- What the file at the target holds, if there is one. -/
def content? (target : String) (s : SharedFolder W R) : Option ByteArray :=
  (s.names target).bind fun number => (s.entries number).content?

/-- What the latest replacement has put there. -/
def latest (bytes : W → ByteArray) (initial : Option ByteArray) : List W → Option ByteArray
  | [] => initial
  | w :: _ => some (bytes w)

/-- A content that the target has had. -/
def Was (bytes : W → ByteArray) (initial : Option ByteArray) (renames : List W)
    (content : Option ByteArray) : Prop :=
  content = initial ∨ ∃ w ∈ renames, content = some (bytes w)

theorem Step.content?_eq_of_names (h : Step target bytes s t) (hapart : Apart target s)
    (hnames : t.names target = s.names target) : t.content? target = s.content? target := by
  rw [content?, content?, hnames]
  refine Option.bind_congr fun number hnumber => ?_
  rw [h.entries_eq (hapart.settled_target hnumber)]

omit [DecidableEq W] [DecidableEq R] in
theorem content?_of_rename (hfilled : Filled bytes s)
    (hstage : s.writers w = .flushed name number) (hnames : t.names target = some number)
    (hentries : t.entries = s.entries) : t.content? target = some (bytes w) := by
  obtain ⟨content, hentry, hall⟩ := hfilled w name number (by rw [Owns, hstage]; rfl)
  rw [hstage] at hall
  rw [content?, hnames, Option.bind_some, hentries, hentry, ← hall]
  exact congrArg some ByteArray.append_empty.symm

/-- **Nothing but a replacement changes the target**, and only a replacement makes its writer done. -/
theorem Step.content?_eq (h : Step target bytes s t) (hapart : Apart target s)
    (hfilled : Filled bytes s) :
    (t.renames = s.renames ∧ t.content? target = s.content? target ∧
      ∀ v, t.writers v = .done ↔ s.writers v = .done) ∨
    ∃ w, t.renames = w :: s.renames ∧ t.content? target = some (bytes w) ∧
      t.writers = update s.writers w .done := by
  have hkept := h.content?_eq_of_names hapart
  have hdone {w : W} {stage : WriteStage} (hwriters : t.writers = update s.writers w stage)
      (hold : s.writers w ≠ .done) (hnew : stage ≠ .done) (v : W) :
      t.writers v = .done ↔ s.writers v = .done := by
    rw [hwriters, Function.update_apply]
    split
    · next hv => simp [hv, hold, hnew]
    · rfl
  cases h with
  | writes w hw =>
      cases hw with
      | create hstage _ hname =>
          exact .inl ⟨rfl, hkept (Function.update_of_ne hname.symm _ _),
            hdone rfl (by simp [hstage]) (by simp)⟩
      | write hstage _ => exact .inl ⟨rfl, hkept rfl, hdone rfl (by simp [hstage]) (by simp)⟩
      | flush hstage => exact .inl ⟨rfl, hkept rfl, hdone rfl (by simp [hstage]) (by simp)⟩
      | rename hstage _ _ =>
          exact .inr ⟨w, rfl, content?_of_rename hfilled hstage (Function.update_self _ _ _) rfl,
            rfl⟩
  | fails w hw =>
      cases hw with
      | leave hstage => exact .inl ⟨rfl, hkept rfl, hdone rfl hstage (by simp)⟩
      | remove hown =>
          have hname := (hapart.named _ _ _ hown).1
          have hstage : s.writers w ≠ .done := fun heq => by simp [heq, WriteStage.own?] at hown
          exact .inl ⟨rfl, hkept (Function.update_of_ne hname.symm _ _), hdone rfl hstage (by simp)⟩
  | reads r hr => cases hr <;> exact .inl ⟨rfl, hkept rfl, fun _ => .rfl⟩

/-! ### What is read -/

/-- What was read so far is the beginning of a content that the target has had, and the file does not
change any more. -/
def Faithful (bytes : W → ByteArray) (initial : Option ByteArray) (s : SharedFolder W R) :
    ReadStage → Prop
  | .idle | .failed => True
  | .reading number sofar => s.Settled number ∧ ∃ rest,
      (s.entries number).content? = some (sofar ++ rest) ∧
        Was bytes initial s.renames (some (sofar ++ rest))
  | .done content => Was bytes initial s.renames content

/-- What holds of a shared directory at any time. -/
structure Inv (target : String) (bytes : W → ByteArray) (initial : Option ByteArray)
    (s : SharedFolder W R) : Prop where
  apart : Apart target s
  filled : Filled bytes s
  content_eq : s.content? target = latest bytes initial s.renames
  done_iff : ∀ w, s.writers w = .done ↔ w ∈ s.renames
  faithful : ∀ r, Faithful bytes initial s (s.readers r)

variable {initial content : Option ByteArray}

omit [DecidableEq W] in
theorem was_latest (renames : List W) :
    Was bytes initial renames (latest bytes initial renames) := by
  cases renames with
  | nil => exact .inl rfl
  | cons w renames => exact .inr ⟨w, List.mem_cons_self, rfl⟩

omit [DecidableEq W] in
theorem Was.mono {renames more : List W} (h : Was bytes initial renames content)
    (hsub : renames ⊆ more) : Was bytes initial more content :=
  h.imp_right fun ⟨w, hw, heq⟩ => ⟨w, hsub hw, heq⟩

theorem Step.renames_subset (h : Step target bytes s t) : s.renames ⊆ t.renames := by
  cases h with
  | writes w hw =>
      cases hw with
      | rename => exact List.subset_cons_self _ _
      | create | write | flush => exact List.Subset.refl _
  | fails w hw => cases hw <;> exact List.Subset.refl _
  | reads r hr => cases hr <;> exact List.Subset.refl _

/-- **What was read stays faithful**, whatever anybody does. -/
theorem Faithful.step {stage : ReadStage} (h : Faithful bytes initial s stage)
    (hstep : Step target bytes s t) : Faithful bytes initial t stage := by
  have hsub := hstep.renames_subset
  cases stage with
  | idle | failed => trivial
  | done content => exact Was.mono h hsub
  | reading number sofar =>
      obtain ⟨hsettled, rest, hentry, hwas⟩ := h
      exact ⟨hsettled.move hstep.moves, rest, by rw [hstep.entries_eq hsettled, hentry],
        hwas.mono hsub⟩

omit [DecidableEq W] in
/-- **Who reads reads what was there**, also in pieces. -/
theorem ReaderStep.faithful (h : ReaderStep target r s t) (hinv : Inv target bytes initial s)
    (v : R) : Faithful bytes initial s (t.readers v) := by
  have hnow : Was bytes initial s.renames (s.content? target) :=
    hinv.content_eq ▸ was_latest s.renames
  have hupdate {stage : ReadStage} (hstage : Faithful bytes initial s stage) :
      Faithful bytes initial s (update s.readers r stage v) := by
    rw [Function.update_apply]
    split
    · exact hstage
    · exact hinv.faithful v
  have hbefore := hinv.faithful r
  cases h with
  | missing _ hnone =>
      have hcontent : s.content? target = none := by
        rw [content?]
        cases hnames : s.names target with
        | none => rfl
        | some number =>
            rw [hnames, Option.bind_some] at hnone
            rw [Option.bind_some, Entry.content?, hnone]
      exact hupdate (hcontent ▸ hnow)
  | @begin number content _ hnamed hentry =>
      have hfile := Entry.content?_eq_some_iff.2 hentry
      refine hupdate ⟨hinv.apart.settled_target hnamed, content, ?_, ?_⟩
      · rw [ByteArray.empty_append, hfile]
      · rw [content?, hnamed, Option.bind_some, hfile] at hnow
        rwa [ByteArray.empty_append]
  | @read number sofar piece rest hstage hentry =>
      rw [hstage] at hbefore
      obtain ⟨hsettled, rest', hfile, hwas⟩ := hbefore
      have hall := Entry.content?_eq_some_iff.2 hentry
      rw [hfile] at hall
      rw [hall] at hwas
      exact hupdate ⟨hsettled, rest, hfile.trans hall, hwas⟩
  | @finish number content hstage hentry =>
      rw [hstage] at hbefore
      obtain ⟨-, rest, hfile, hwas⟩ := hbefore
      rw [← hfile, Entry.content?_eq_some_iff.2 hentry] at hwas
      exact hupdate hwas
  | fail _ => exact hupdate trivial

theorem Inv.step (h : Inv target bytes initial s) (hstep : Step target bytes s t) :
    Inv target bytes initial t where
  apart := h.apart.move hstep.moves
  filled := h.filled.step h.apart hstep
  content_eq := by
    rcases hstep.content?_eq h.apart h.filled with ⟨hrenames, hcontent, -⟩ | ⟨w, hrenames, hcontent, -⟩
    · rw [hcontent, hrenames, h.content_eq]
    · rw [hcontent, hrenames, latest]
  done_iff v := by
    rcases hstep.content?_eq h.apart h.filled with ⟨hrenames, -, hdone⟩ | ⟨w, hrenames, -, hwriters⟩
    · rw [hdone, hrenames, h.done_iff]
    · rw [hwriters, hrenames, Function.update_apply, List.mem_cons, ← h.done_iff]
      split
      · next hv => simp [hv]
      · next hv => simp [hv]
  faithful v := by
    refine Faithful.step ?_ hstep
    cases hstep with
    | writes w hw => cases hw <;> exact h.faithful v
    | fails w hw => cases hw <;> exact h.faithful v
    | reads r hr => exact hr.faithful h v

/-! ### Runs -/

/-- Nobody has begun. -/
structure Starts (s : SharedFolder W R) : Prop where
  lt : ∀ name number, s.names name = some number → number < s.next
  writers : ∀ w, s.writers w = .idle
  readers : ∀ r, s.readers r = .idle
  renames : s.renames = []

omit [DecidableEq W] [DecidableEq R] in
theorem Starts.not_owns (h : Starts s) (w : W) (name : String) (number : Nat) :
    ¬ s.Owns w name number := by
  simp [Owns, h.writers w, WriteStage.own?]

omit [DecidableEq W] [DecidableEq R] in
theorem Starts.inv (h : Starts s) : Inv target bytes (s.content? target) s where
  apart := ⟨h.lt, fun w name number hown => absurd hown (h.not_owns w name number),
    fun w name number _ hown => absurd hown (h.not_owns w name number),
    fun w _ name number _ hown => absurd hown (h.not_owns w name number)⟩
  filled w name number hown := absurd hown (h.not_owns w name number)
  content_eq := by rw [h.renames, latest]
  done_iff w := by simp [h.writers w, h.renames]
  faithful r := by
    rw [h.readers r]
    trivial

/-- **What holds at the start holds ever after.** -/
theorem Reach.inv (hstart : Starts start) (h : Reach target bytes start s) :
    Inv target bytes (start.content? target) s := by
  induction h with
  | start => exact hstart.inv
  | step _ hstep ih => exact ih.step hstep

/-! ### The other names -/

/-- What a name stands for. -/
def child? (s : SharedFolder W R) (name : String) : Option Entry := (s.names name).map s.entries

/-- What was there at the start stays as it is. -/
theorem Reach.settled (hstart : Starts start) (h : Reach target bytes start s)
    (hlt : number < start.next) :
    s.Settled number ∧ s.entries number = start.entries number := by
  induction h with
  | start => exact ⟨⟨hlt, fun w name => hstart.not_owns w name number⟩, rfl⟩
  | step _ hstep ih => exact ⟨ih.1.move hstep.moves, (hstep.entries_eq ih.1).trans ih.2⟩

/-- Names other than the target are as at the start, but for files that are being written or were left
behind by somebody who gave up. -/
def Kept (target : String) (start s : SharedFolder W R) : Prop :=
  ∀ name, name ≠ target → s.names name = start.names name ∨
    start.names name = none ∧ ((∃ w number, s.Owns w name number) ∨ ∃ w, s.writers w = .failed)

theorem Kept.step (h : Kept target start s) (hapart : Apart target s)
    (hnew : ∀ w name number, s.Owns w name number → start.names name ≠ some number)
    (hstep : Step target bytes s t) : Kept target start t := by
  intro name hname
  have hbefore := h name hname
  cases hstep with
  | writes w hw => cases hw <;> simp only [Owns, Function.update_apply] at * <;> grind [WriteStage.own?]
  | fails w hw =>
      cases hw with
      | leave => simp only [Owns, Function.update_apply] at *; grind
      | remove hown =>
          have hnamed := (hapart.named _ _ _ hown).2
          simp only [Owns, Function.update_apply] at *
          grind
  | reads r hr => cases hr <;> exact hbefore

theorem Reach.kept (hstart : Starts start) (h : Reach target bytes start s) :
    Kept target start s := by
  induction h with
  | start => exact fun name _ => .inl rfl
  | step h hstep ih =>
      refine ih.step (h.inv hstart).apart (fun w name number hown hnames => ?_) hstep
      exact (h.settled hstart (hstart.lt name number hnames)).1.not_owns w name hown

/-- **When all are done** and nobody has failed, no other name has changed. -/
theorem Reach.child?_eq (hstart : Starts start) (h : Reach target bytes start s)
    (hdone : ∀ w, s.writers w = .idle ∨ s.writers w = .done) (hname : name ≠ target) :
    s.child? name = start.child? name := by
  have hnames : s.names name = start.names name := by
    rcases h.kept hstart name hname with hsame | ⟨-, ⟨w, number, hown⟩ | ⟨w, hfailed⟩⟩
    · exact hsame
    · rcases hdone w with hstage | hstage <;> simp [Owns, hstage, WriteStage.own?] at hown
    · rcases hdone w with hstage | hstage <;> simp [hstage] at hfailed
  rw [child?, child?, hnames]
  cases hnumber : start.names name with
  | none => rfl
  | some number =>
      exact congrArg some (h.settled hstart (hstart.lt name number hnumber)).2

/-! ### Contracts -/

/-- **Many leave what the last of them would have left alone.** The directory that a contract was
stored in is, but for the file of the contract, what a shared directory is when all are done, and the
file holds what the latest one has written. -/
theorem persist_of_latest {tree : Entry} {store : Store} {c : Contract}
    (h : (store.persist tree c).failure = none) :
    ∃ names target, Path.place? store.path = some (names ++ [target]) ∧
      ∀ {W R : Type} [DecidableEq W] [DecidableEq R] {contracts : W → Contract}
        {start s : SharedFolder W R} {w : W} {more : List W}, Starts start →
        (∀ name, start.child? name = (tree.withFolders store.path).tree.at? (names ++ [name])) →
        Reach target (fun w => (store.codec.encode (contracts w)).toUTF8) start s →
        (∀ w, s.writers w = .idle ∨ s.writers w = .done) → s.renames = w :: more →
        contracts w = c →
        s.content? target = (store.persist tree c).tree.fileAt? (names ++ [target]) ∧
          ∀ name, name ≠ target →
            s.child? name = (store.persist tree c).tree.at? (names ++ [name]) := by
  obtain ⟨names, target, -, hplace, -, -, hputs⟩ :=
    Entry.puts_of_replace (Entry.replace_of_writeText h)
  refine ⟨names, target, hplace, ?_⟩
  intro W R _ _ contracts start s w more hstart hchildren hreach hdone hlast hc
  refine ⟨?_, fun name hname => ?_⟩
  · rw [(hreach.inv hstart).content_eq, hlast, latest, hc, Entry.fileAt?]
    exact congrArg (Option.bind · Entry.content?) hputs.at_place.symm
  · rw [hreach.child?_eq hstart hdone hname, hchildren]
    refine (hputs.apart _ (fun habove => ?_) fun hbelow => ?_).symm
    · exact hname (by simpa using (List.prefix_append_right_inj names).1 habove)
    · have hin := (List.prefix_append_right_inj names).1 hbelow
      exact hname (by simpa [eq_comm] using hin)

/-- **Nobody ever reads a part of a contract, and the last one to replace it wins.** -/
theorem reads_whole (store : Store) (contracts : W → Contract) (hstart : Starts start)
    (h : Reach target (fun w => (store.codec.encode (contracts w)).toUTF8) start s) :
    let bytes (w : W) : ByteArray := (store.codec.encode (contracts w)).toUTF8
    s.content? target = latest bytes (start.content? target) s.renames ∧
      (∀ r content, s.readers r = .done content →
        content = start.content? target ∨ ∃ w ∈ s.renames, content = some (bytes w)) ∧
      (∀ w, s.writers w = .done ↔ w ∈ s.renames) ∧
      ∀ w t, WriterFails w s t →
        t.content? target = s.content? target ∧ t.writers w = .failed ∧ w ∉ t.renames := by
  intro bytes
  have hinv := h.inv hstart
  refine ⟨hinv.content_eq, fun r content hread => ?_, hinv.done_iff, fun w t hfails => ?_⟩
  · have hfaithful := hinv.faithful r
    rwa [hread] at hfaithful
  · have hstep : Step target bytes s t := .fails w hfails
    have hfailed : t.writers w = .failed := by cases hfails <;> exact Function.update_self _ _ _
    have hnot : w ∉ t.renames := fun hmem => by
      have hdone := ((hinv.step hstep).done_iff w).2 hmem
      rw [hfailed] at hdone
      cases hdone
    refine ⟨?_, hfailed, hnot⟩
    rw [(hinv.step hstep).content_eq, hinv.content_eq]
    cases hfails <;> rfl

end

/-- An empty directory, two who will write and one who will read. -/
def empty : SharedFolder Bool Unit where
  names _ := none
  entries _ := .file .empty
  next := 0
  writers _ := .idle
  readers _ := .idle
  renames := []

theorem starts_empty : Starts empty where
  lt _ _ h := nomatch h
  writers _ := rfl
  readers _ := rfl
  renames := rfl

/-- Both write side by side. The one who reads has opened the first file when the second one takes its
place, and goes on with the first. -/
theorem exists_race (bytes : Bool → ByteArray) :
    ∃ s, Reach "c.json" bytes empty s ∧ s.readers () = .done (some (bytes true)) ∧
      s.renames = [false, true] := by
  have hwhole (w : Bool) (name : String) (number : Nat) :
      WriteStage.filling name number (bytes w) = .filling name number (bytes w ++ .empty) :=
    congrArg _ ByteArray.append_empty.symm
  have h₁ : Reach "c.json" bytes empty _ :=
    .step .start (.writes true (@WriterStep.create _ _ _ _ _ _ _ "1" rfl rfl (by decide)))
  have h₂ := h₁.step (.writes false (@WriterStep.create _ _ _ _ _ _ _ "2" rfl rfl (by decide)))
  have h₃ := h₂.step (.writes true (.write (hwhole true _ _) rfl))
  have h₄ := h₃.step (.writes true (.flush rfl))
  have h₅ := h₄.step (.writes true (.rename rfl rfl fun _ _ h => nomatch h))
  have h₆ := h₅.step (.reads () (.begin rfl rfl rfl))
  have h₇ := h₆.step (.writes false (.write (hwhole false _ _) rfl))
  have h₈ := h₇.step (.writes false (.flush rfl))
  have h₉ := h₈.step (.writes false (.rename rfl rfl fun _ _ h => by cases h; exact nofun))
  have h₁₀ := h₉.step (.reads () (.read rfl
    (congrArg (fun content => some (Entry.file content)) ByteArray.append_empty.symm)))
  have h₁₁ := h₁₀.step (.reads () (.finish rfl rfl))
  refine ⟨_, h₁₁, ?_, rfl⟩
  show ReadStage.done (some _) = _
  rw [ByteArray.empty_append]

/-- Two contracts that differ in the state of the repository. -/
def raceContract (w : Bool) : Contract where
  schemaVersion := Contract.currentVersion
  repo := ⟨none, if w then "a" else "b"⟩
  generatedAt := ⟨0, 0⟩
  rules := []
  metrics := none

theorem reads_whole_race :
    let store : Store := ⟨"c.json", .json⟩
    let bytes (w : Bool) : ByteArray := (store.codec.encode (raceContract w)).toUTF8
    ∃ s : SharedFolder Bool Unit, Reach "c.json" bytes empty s ∧
      s.readers () = .done (some (bytes true)) ∧ s.content? "c.json" = some (bytes false) ∧
      bytes true ≠ bytes false ∧ ∃ w ∈ s.renames, some (bytes true) = some (bytes w) := by
  intro store bytes
  obtain ⟨s, hreach, hread, hrenames⟩ := exists_race bytes
  obtain ⟨hcontent, hreads, -, -⟩ := reads_whole store raceContract starts_empty hreach
  refine ⟨s, hreach, hread, ?_, ?_, ?_⟩
  · rw [hcontent, hrenames, latest]
  · decide +kernel
  · exact (hreads () _ hread).resolve_left nofun

end StyleContract.SharedFolder
