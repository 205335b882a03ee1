import Mathlib.Data.List.Infix
import StyleContract.Proofs.Text.Digits
import StyleContract.Proofs.Text.Lines

/-!
# Proofs — Text — Headings

The lines that start with a mark, such as that of a heading, in a text that is put together from others,
each printed as a line. A text with line breaks takes up several lines there (`rows`): the first one
starts as the text does (`starts_firstRow`), a later one starts with what follows a line break
(`markedLater_eq_nil_iff`). So the marked lines of the whole are those of the texts that start with the
mark, in their order, and **they are no more than these if and only if no text has a line break with the
mark behind it** (`marked_printed_eq_openings_iff`).
-/

namespace StyleContract.Text

variable {c : Char} {cs : List Char} {mark s : String}

/-! ### Texts without line breaks -/

/-- A text without line breaks. -/
def Flat (s : String) : Prop := '\n' ∉ s.toList

instance (s : String) : Decidable (Flat s) := inferInstanceAs (Decidable (¬ _))

theorem flat_append_iff {s t : String} : Flat (s ++ t) ↔ Flat s ∧ Flat t := by
  rw [Flat, String.toList_append, List.mem_append, not_or]
  rfl

theorem not_mem_intercalate {sep : String} (hsep : c ∉ sep.toList) {texts : List String}
    (h : ∀ t ∈ texts, c ∉ t.toList) : c ∉ (sep.intercalate texts).toList := by
  rw [String.toList_intercalate]
  induction texts with
  | nil => exact List.not_mem_nil
  | cons t texts ih =>
      obtain ⟨ht, htexts⟩ := List.forall_mem_cons.1 h
      cases texts with
      | nil =>
          rw [List.map_singleton, List.intercalate_singleton]
          exact ht
      | cons next rest =>
          rw [List.map_cons, List.map_cons, List.intercalate_cons_cons, List.mem_append, List.mem_append]
          exact not_or.2 ⟨not_or.2 ⟨ht, hsep⟩, ih htexts⟩

theorem flat_toString (n : Nat) : Flat (toString n) := by
  intro h
  have hdigits : '\n' ∈ Nat.toDigits 10 n := by
    rwa [show toString n = Nat.repr n from rfl, Nat.repr, String.toList_ofList] at h
  exact absurd (isDigit_of_mem_toDigits hdigits) (by decide)

/-! ### Lines of texts printed one after the other -/

theorem linesOfParts_append (parts : List (List Char)) {more : List (List Char)} (h : more ≠ []) :
    linesOfParts (parts ++ more) = parts.map dropReturn ++ linesOfParts more := by
  induction parts with
  | nil => rfl
  | cons part parts ih =>
      obtain ⟨next, rest, hnext⟩ := List.exists_cons_of_ne_nil
        (List.append_ne_nil_of_right_ne_nil parts h)
      rw [List.cons_append, List.map_cons, List.cons_append, ← ih, hnext, linesOfParts]
      simp

theorem splitOn_append_feed (s t : String) : splitOn '\n' (s ++ "\n" ++ t).toList =
    splitOn '\n' s.toList ++ splitOn '\n' t.toList := by
  rw [String.append_assoc, String.toList_append, String.toList_append]
  exact splitOn_append_cons '\n' s.toList t.toList

/-- The lines that a text takes up where it is printed as a line. -/
def rows (s : String) : List String := lines (s ++ "\n")

theorem rows_eq (s : String) :
    rows s = (splitOn '\n' s.toList).map fun part => String.ofList (dropReturn part) := by
  have hsplit : splitOn '\n' (s ++ "\n").toList = splitOn '\n' s.toList ++ [[]] := by
    rw [String.toList_append]
    exact splitOn_append_cons '\n' s.toList []
  rw [rows, lines, hsplit, linesOfParts_append _ (by simp), List.map_append, List.map_map]
  exact List.append_nil _

theorem lines_append_feed (s t : String) : lines (s ++ "\n" ++ t) = rows s ++ lines t := by
  rw [rows_eq, lines, splitOn_append_feed, linesOfParts_append _ (splitOn_ne_nil _ _), List.map_append,
    List.map_map]
  rfl

/-- Texts, each printed as a line. -/
def printed (texts : List String) : String := String.join (texts.map (· ++ "\n"))

theorem printed_cons (s : String) (texts : List String) :
    printed (s :: texts) = s ++ "\n" ++ printed texts := by
  rw [printed, List.map_cons, String.join_cons]
  rfl

theorem printed_append (texts more : List String) :
    printed (texts ++ more) = printed texts ++ printed more := by
  induction texts with
  | nil => exact (String.empty_append).symm
  | cons s texts ih => rw [List.cons_append, printed_cons, printed_cons, ih, ← String.append_assoc]

theorem lines_printed (texts : List String) : lines (printed texts) = texts.flatMap rows := by
  induction texts with
  | nil => rfl
  | cons s texts ih => rw [printed_cons, lines_append_feed, ih, List.flatMap_cons]

/-- The first of the lines that a text takes up. -/
def firstRow (s : String) : String := (rows s).headD ""

def laterRows (s : String) : List String := (rows s).tail

theorem rows_eq_cons (s : String) : rows s = firstRow s :: laterRows s := by
  have hne : rows s ≠ [] := by
    rw [rows_eq]
    simpa using splitOn_ne_nil '\n' s.toList
  obtain ⟨row, more, hrows⟩ := List.exists_cons_of_ne_nil hne
  rw [firstRow, laterRows, hrows]
  rfl

/-! ### Marked lines -/

/-- Whether a text starts with a mark. -/
def starts (mark s : String) : Bool := mark.toList.isPrefixOf s.toList

theorem starts_iff : starts mark s = true ↔ mark.toList <+: s.toList := List.isPrefixOf_iff_prefix

/-- A mark that no end of a line cuts. -/
def IsMark (mark : String) : Prop := ∀ c ∈ mark.toList, c ≠ '\n' ∧ c ≠ '\r'

theorem IsMark.append {more : String} (h : IsMark mark) (hmore : IsMark more) : IsMark (mark ++ more) := by
  rw [IsMark, String.toList_append]
  exact List.forall_mem_append.2 ⟨h, hmore⟩

theorem starts_append (mark s : String) : starts mark (mark ++ s) = true := by
  rw [starts_iff, String.toList_append]
  exact List.prefix_append _ _

theorem prefix_dropReturn_iff {start : List Char} (h : '\r' ∉ start) :
    start <+: dropReturn cs ↔ start <+: cs := by
  rw [dropReturn]
  split
  · next hlast =>
    obtain ⟨front, rfl⟩ := List.getLast?_eq_some_iff.1 hlast
    rw [List.dropLast_concat, List.prefix_concat_iff]
    refine ⟨.inr, fun hor => hor.resolve_left ?_⟩
    rintro rfl
    exact h (by simp)
  · rfl

/-- The part before the first feed starts as the whole does. -/
theorem exists_splitOn_cons {start : List Char} (h : '\n' ∉ start) (cs : List Char) :
    ∃ part parts, splitOn '\n' cs = part :: parts ∧ (start <+: part ↔ start <+: cs) := by
  induction cs generalizing start with
  | nil => exact ⟨[], [], rfl, Iff.rfl⟩
  | cons x xs ih =>
      rw [splitOn]
      split
      · next hx =>
        refine ⟨[], _, rfl, ?_⟩
        cases start with
        | nil => simp
        | cons y ys =>
            refine iff_of_false (by simp) fun hprefix => h ?_
            rw [← hx, ← (List.cons_prefix_cons.1 hprefix).1]
            exact List.mem_cons_self
      · cases start with
        | nil =>
            obtain ⟨part, parts, hparts, -⟩ := @ih [] List.not_mem_nil
            rw [hparts]
            exact ⟨x :: part, parts, rfl, by simp⟩
        | cons y ys =>
            obtain ⟨part, parts, hparts, hprefix⟩ := @ih ys (by simp_all)
            rw [hparts]
            exact ⟨x :: part, parts, rfl, by rw [List.cons_prefix_cons, List.cons_prefix_cons, hprefix]⟩

/-- A later part starts with what follows some feed. -/
theorem exists_mem_tail_splitOn_iff {start : List Char} (h : '\n' ∉ start) :
    (∃ part ∈ (splitOn '\n' cs).tail, start <+: part) ↔ '\n' :: start <:+: cs := by
  induction cs with
  | nil => simp [splitOn]
  | cons x xs ih =>
      obtain ⟨part, parts, hparts, hprefix⟩ := exists_splitOn_cons h xs
      rw [hparts, List.tail_cons] at ih
      rw [splitOn, List.infix_cons_iff, List.cons_prefix_cons, ← ih, hparts]
      split
      · next hx =>
        rw [List.tail_cons]
        simp [hx, hprefix]
      · next hx => simp [Ne.symm hx]

/-- **The first line of a text starts as the text does.** -/
theorem starts_firstRow (h : IsMark mark) (s : String) : starts mark (firstRow s) = starts mark s := by
  obtain ⟨part, parts, hparts, hprefix⟩ :=
    exists_splitOn_cons (fun hmem => (h _ hmem).1 rfl : '\n' ∉ mark.toList) s.toList
  have hrow : firstRow s = String.ofList (dropReturn part) := by
    rw [firstRow, rows_eq, hparts]
    rfl
  rw [Bool.eq_iff_iff, starts_iff, starts_iff, hrow, String.toList_ofList, ← hprefix]
  exact prefix_dropReturn_iff fun hmem => (h _ hmem).2 rfl

/-- The lines of a text that start with a mark. -/
def marked (mark s : String) : List String := (lines s).filter (starts mark)

/-- The first lines of the texts that start with a mark. -/
def openings (mark : String) (texts : List String) : List String :=
  (texts.filter (starts mark)).map firstRow

/-- The lines of a text that start with a mark, but for its first one. -/
def markedLater (mark s : String) : List String := (laterRows s).filter (starts mark)

/-- **A later line starts with the mark** if and only if the mark follows some line break. -/
theorem markedLater_eq_nil_iff (h : IsMark mark) :
    markedLater mark s = [] ↔ ¬ '\n' :: mark.toList <:+: s.toList := by
  rw [← exists_mem_tail_splitOn_iff fun hmem => (h _ hmem).1 rfl, markedLater, laterRows, rows_eq,
    List.filter_eq_nil_iff, ← List.map_tail, List.forall_mem_map, not_exists]
  refine forall_congr' fun part => ?_
  rw [starts_iff, String.toList_ofList, prefix_dropReturn_iff fun hmem => (h _ hmem).2 rfl, not_and]

theorem openings_append (texts more : List String) :
    openings mark (texts ++ more) = openings mark texts ++ openings mark more := by
  rw [openings, List.filter_append, List.map_append]
  rfl

theorem openings_flatMap {α : Type} (f : α → List String) (items : List α) :
    openings mark (items.flatMap f) = items.flatMap fun item => openings mark (f item) := by
  induction items with
  | nil => rfl
  | cons item items ih => rw [List.flatMap_cons, openings_append, ih, List.flatMap_cons]

theorem openings_cons_of_false (h : starts mark s = false) (lines : List String) :
    openings mark (s :: lines) = openings mark lines := by
  rw [openings, List.filter_cons_of_neg (by simp [h])]
  rfl

theorem openings_cons_of_true (h : starts mark s = true) (lines : List String) :
    openings mark (s :: lines) = firstRow s :: openings mark lines := by
  rw [openings, List.filter_cons_of_pos h]
  rfl

theorem marked_printed (h : IsMark mark) (texts : List String) :
    marked mark (printed texts) = texts.flatMap fun s => openings mark [s] ++ markedLater mark s := by
  rw [marked, lines_printed, List.filter_flatMap]
  refine List.flatMap_congr fun s _ => ?_
  rw [rows_eq_cons, List.filter_cons, starts_firstRow h, openings, List.filter_singleton]
  cases starts mark s <;> rfl

theorem openings_eq_flatMap (texts : List String) :
    openings mark texts = texts.flatMap fun s => openings mark [s] := by
  rw [← openings_flatMap, List.flatMap_singleton']

theorem flatMap_sublist_flatMap_append {α β : Type} (f g : α → List β) (items : List α) :
    (items.flatMap f).Sublist (items.flatMap fun a => f a ++ g a) := by
  induction items with
  | nil => exact .slnil
  | cons a items ih =>
      rw [List.flatMap_cons, List.flatMap_cons]
      exact (List.sublist_append_left _ _).append ih

theorem flatMap_append_eq_iff {α β : Type} (f g : α → List β) (items : List α) :
    (items.flatMap fun a => f a ++ g a) = items.flatMap f ↔ ∀ a ∈ items, g a = [] := by
  constructor
  · intro h
    induction items with
    | nil => exact fun a ha => (List.not_mem_nil ha).elim
    | cons a items ih =>
        rw [List.flatMap_cons, List.flatMap_cons, List.append_assoc, List.append_cancel_left_eq] at h
        -- what is left over on one side is at least as long as on the other
        have hlength := congrArg List.length h
        have hle := (flatMap_sublist_flatMap_append f g items).length_le
        rw [List.length_append] at hlength
        have hnil : g a = [] := List.length_eq_zero_iff.1 (by omega)
        rw [hnil, List.nil_append] at h
        exact List.forall_mem_cons.2 ⟨hnil, ih h⟩
  · intro h
    exact List.flatMap_congr fun a ha => by rw [h a ha, List.append_nil]

/-- **What starts with the mark is there, in its order.** -/
theorem openings_sublist_marked (h : IsMark mark) (texts : List String) :
    (openings mark texts).Sublist (marked mark (printed texts)) := by
  rw [marked_printed h, openings_eq_flatMap]
  exact flatMap_sublist_flatMap_append _ _ texts

/-- **Nothing else is there** if and only if no text has a line break with the mark behind it. -/
theorem marked_printed_eq_openings_iff (h : IsMark mark) (texts : List String) :
    marked mark (printed texts) = openings mark texts ↔
      ∀ s ∈ texts, ¬ '\n' :: mark.toList <:+: s.toList := by
  rw [marked_printed h, openings_eq_flatMap, flatMap_append_eq_iff]
  exact forall_congr' fun s => forall_congr' fun _ => markedLater_eq_nil_iff h

end StyleContract.Text
