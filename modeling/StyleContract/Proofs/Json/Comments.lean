import StyleContract.Proofs.Json.Places

/-!
# Proofs — Json — Comments

JSON with comments and trailing commas. Comments are taken out of a text by a scan that tells strings from
what is between them (`Scan`), and of the text that is left the commas in front of a closing bracket
(`dropCommas`). **A JSON text is left as it is** (`cleaned_of_readRaw`), since it has neither.

What stands outside of comments and has no slash and no comma of its own is found again in the cleaned text, at
a place of the same kind (`exists_cleaned`): in a string if it was in one, and between strings else.
-/

namespace StyleContract.Json

variable {m : Mode} {c : Char} {cs o p q : List Char} {v : Json} {k : Scan}

/-! ### Comments -/

/-- How far a scan for comments has come: outside of them, behind a slash that may begin one, in one that
ends with its line, in one that ends with a star and a slash, or behind a star in such a one. -/
inductive Scan where
  | plain (m : Mode)
  | slash
  | line
  | block
  | star
  deriving DecidableEq

namespace Scan

/-- In front of a text. -/
abbrev start : Scan := .plain .code

/-- What ends a line. -/
def isBreak (c : Char) : Bool := c = '\n' || c = '\r'

def next : Scan → Char → Scan
  | .plain .code, c => if c = '/' then .slash else .plain (Mode.code.next c)
  | .plain m, c => .plain (m.next c)
  | .slash, c => if c = '/' then .line else if c = '*' then .block else .plain (Mode.code.next c)
  | .line, c => if isBreak c then .plain .code else .line
  | .block, c => if c = '*' then .star else .block
  | .star, c => if c = '/' then .plain .code else if c = '*' then .star else .block

def run (s : Scan) (cs : List Char) : Scan := cs.foldl next s

/-- What is kept as soon as a character is seen. A slash waits for the character behind it. -/
def emit : Scan → Char → List Char
  | .plain .code, c => if c = '/' then [] else [c]
  | .plain _, c => [c]
  | .slash, c => if c = '/' ∨ c = '*' then [] else ['/', c]
  | .line, c => if isBreak c then [c] else []
  | .block, _ => []
  | .star, _ => []

def kept : Scan → List Char → List Char
  | _, [] => []
  | s, c :: cs => s.emit c ++ (s.next c).kept cs

/-- What is still kept at the end of a text. -/
def pending : Scan → List Char
  | .slash => ['/']
  | .plain _ | .line | .block | .star => []

/-- Where the kept text stands. All comments are between strings. -/
def mode : Scan → Mode
  | .plain m => m
  | .slash | .line | .block | .star => .code

/-- Within a comment. -/
def Commented (s : Scan) : Prop := s = .line ∨ s = .block ∨ s = .star

/-- Within a string. -/
def Quoted (s : Scan) : Prop := s = .plain .text ∨ s = .plain .escape

variable {s : Scan}

@[simp] theorem run_nil : s.run [] = s := rfl

@[simp] theorem run_cons : s.run (c :: cs) = (s.next c).run cs := rfl

@[simp] theorem run_append : s.run (p ++ q) = (s.run p).run q := List.foldl_append

theorem kept_append : s.kept (p ++ q) = s.kept p ++ (s.run p).kept q := by
  induction p generalizing s with
  | nil => rfl
  | cons c p ih => rw [List.cons_append, kept, kept, ih, List.append_assoc, run_cons]

theorem run_emit (s : Scan) (c : Char) : s.mode.run (s.emit c) = (s.next c).mode := by
  rcases s with (_ | _ | _) | _ | _ | _ | _
  case plain.code =>
    by_cases hslash : c = '/'
    · rw [emit, next, if_pos hslash, if_pos hslash]
      rfl
    · rw [emit, next, if_neg hslash, if_neg hslash]
      rfl
  case plain.text | plain.escape => rfl
  case slash =>
    by_cases hslash : c = '/'
    · rw [emit, next, if_pos (.inl hslash), if_pos hslash]
      rfl
    by_cases hstar : c = '*'
    · rw [emit, next, if_pos (.inr hstar), if_neg hslash, if_pos hstar]
      rfl
    · rw [emit, next, if_neg (not_or.2 ⟨hslash, hstar⟩), if_neg hslash, if_neg hstar]
      rfl
  case line =>
    by_cases hbreak : isBreak c = true
    · have hquote : c ≠ '"' := by
        rintro rfl
        cases hbreak
      rw [emit, next, if_pos hbreak, if_pos hbreak]
      exact if_neg hquote
    · rw [emit, next, if_neg hbreak, if_neg hbreak]
      rfl
  case block =>
    rw [next]
    split <;> rfl
  case star =>
    rw [next]
    split
    · rfl
    · split <;> rfl

/-- What was kept stands where the scan says that it does. -/
theorem run_kept : s.mode.run (s.kept cs) = (s.run cs).mode := by
  induction cs generalizing s with
  | nil => rfl
  | cons c cs ih => rw [kept, Mode.run_append, run_emit, ih, run_cons]

theorem plain_next (h : m = .code → c ≠ '/') :
    (plain m).next c = .plain (m.next c) ∧ (plain m).emit c = [c] := by
  cases m with
  | code => exact ⟨if_neg (h rfl), if_neg (h rfl)⟩
  | text | escape => exact ⟨rfl, rfl⟩

/-- Where no slash stands between strings, all is kept. -/
theorem plain_run (h : Each (fun c _ => c ≠ '/') m cs []) :
    (plain m).run cs = .plain (m.run cs) ∧ (plain m).kept cs = cs := by
  induction cs generalizing m with
  | nil => exact ⟨rfl, rfl⟩
  | cons c cs ih =>
      obtain ⟨hfirst, hmore⟩ := each_cons.1 h
      obtain ⟨hnext, hemit⟩ := plain_next hfirst
      obtain ⟨hrun, hkept⟩ := ih hmore
      exact ⟨by rw [run_cons, hnext, hrun, Mode.run_cons], by rw [kept, hnext, hemit, hkept]; rfl⟩

end Scan

/-- A text without its comments. -/
def uncomment (cs : List Char) : List Char := Scan.start.kept cs ++ (Scan.start.run cs).pending

/-! ### Trailing commas -/

/-- Only blanks stand in front of a closing bracket. -/
def closes (cs : List Char) : Bool := (skipSpace cs).head?.any fun c => c = ']' || c = '\x7d'

/-- A text without the commas between strings that stand in front of a closing bracket. -/
def dropCommas : Mode → List Char → List Char
  | _, [] => []
  | m, c :: cs =>
    if m = .code ∧ c = ',' ∧ closes cs then dropCommas m cs else c :: dropCommas (m.next c) cs

theorem dropCommas_append (h : Each (fun c b => c = ',' → closes b = false) m p q) :
    dropCommas m (p ++ q) = p ++ dropCommas (m.run p) q := by
  induction p generalizing m with
  | nil => rfl
  | cons c p ih =>
      obtain ⟨hfirst, hmore⟩ := each_cons.1 h
      have hkeep : ¬(m = .code ∧ c = ',' ∧ closes (p ++ q) = true) := by
        rintro ⟨hm, hc, hcloses⟩
        rw [hfirst hm hc] at hcloses
        cases hcloses
      rw [List.cons_append, dropCommas, if_neg hkeep, ih hmore, List.cons_append, Mode.run_cons]

/-- No comma is a quote or a backslash, so nothing changes its place for it. -/
theorem exists_dropCommas (m : Mode) (p q : List Char) : ∃ p',
    dropCommas m (p ++ q) = p' ++ dropCommas (m.run p) q ∧ m.run p' = m.run p := by
  induction p generalizing m with
  | nil => exact ⟨[], rfl, rfl⟩
  | cons c p ih =>
      obtain ⟨p', heq, hrun⟩ := ih (m.next c)
      by_cases hdrop : m = .code ∧ c = ',' ∧ closes (p ++ q) = true
      · obtain ⟨rfl, rfl, hcloses⟩ := hdrop
        refine ⟨p', ?_, hrun⟩
        rw [List.cons_append, dropCommas, if_pos ⟨rfl, rfl, hcloses⟩]
        exact heq
      · refine ⟨c :: p', ?_, hrun⟩
        rw [List.cons_append, dropCommas, if_neg hdrop, heq]
        rfl

/-! ### Cleaned texts -/

/-- A text without its comments and its trailing commas. -/
def cleaned (s : String) : String := String.ofList (dropCommas .code (uncomment s.toList))

section

variable {s : String}

theorem toList_cleaned : (cleaned s).toList = dropCommas .code (uncomment s.toList) := by simp [cleaned]

/-- **A JSON text has no comments and no trailing commas.** -/
theorem cleaned_of_readRaw (h : readRaw s = .ok v) : cleaned s = s := by
  have hslash : Each (fun c _ => c ≠ '/') .code s.toList [] := fun _ _ _ heq hcode =>
    ne_slash_of_readRaw h heq hcode
  have hcomma : Each (fun c b => c = ',' → closes b = false) .code s.toList [] := by
    rintro a c b heq hcode rfl
    have hhead := ne_bracket_of_readRaw h heq hcode
    rw [List.append_nil, closes, Option.any_eq_false]
    exact fun d hd => by simpa using hhead d hd
  obtain ⟨hrun, hkept⟩ := Scan.plain_run hslash
  have hcommas := dropCommas_append hcomma
  rw [List.append_nil, dropCommas, List.append_nil] at hcommas
  rw [cleaned, uncomment, hrun, hkept, Scan.pending, List.append_nil, hcommas, String.ofList_toList]

/-- A cleaned text falls apart where the text does. -/
theorem exists_toList_cleaned (hs : s.toList = p ++ q) (hrun : Scan.start.run p = k) :
    ∃ p', (cleaned s).toList = p' ++ dropCommas k.mode (k.kept q ++ (k.run q).pending) ∧
      Mode.code.run p' = k.mode := by
  have hmode : Mode.code.run (Scan.start.kept p) = k.mode := hrun ▸ Scan.run_kept (s := Scan.start)
  obtain ⟨p', heq, hrun'⟩ := exists_dropCommas .code (Scan.start.kept p) (k.kept q ++ (k.run q).pending)
  refine ⟨p', ?_, hrun'.trans hmode⟩
  rw [toList_cleaned, hs, uncomment, Scan.kept_append, Scan.run_append, hrun, List.append_assoc, heq, hmode]

/-- **What stands outside of comments is found again** in the cleaned text, if it has no slash and no comma. -/
theorem exists_cleaned (hs : s.toList = p ++ (o ++ q)) (hrun : Scan.start.run p = .plain m)
    (hslash : '/' ∉ o) (hcomma : ',' ∉ o) :
    ∃ p' q', (cleaned s).toList = p' ++ (o ++ q') ∧ Mode.code.run p' = m := by
  have hnone : Each (fun c _ => c ≠ '/') m o [] := fun _ _ _ heq _ hc => hslash (by simp [heq, hc])
  obtain ⟨-, hkept⟩ := Scan.plain_run hnone
  obtain ⟨p', heq, hrun'⟩ := exists_toList_cleaned hs hrun
  rw [Scan.kept_append, hkept, List.append_assoc, Scan.mode,
    dropCommas_append fun _ _ _ heq _ hc => absurd (by simp [heq, hc]) hcomma] at heq
  exact ⟨p', _, heq, hrun'⟩

/-- A slash that begins no comment is found again, too. -/
theorem exists_cleaned_slash (hs : s.toList = p ++ c :: q) (hrun : Scan.start.run p = .slash)
    (hslash : c ≠ '/') (hstar : c ≠ '*') :
    ∃ p' q', (cleaned s).toList = p' ++ '/' :: q' ∧ Mode.code.run p' = .code := by
  obtain ⟨p', heq, hrun'⟩ := exists_toList_cleaned hs hrun
  have hkeep : ∀ r, dropCommas .code ('/' :: r) = '/' :: dropCommas .code r := fun r =>
    dropCommas_append (p := ['/']) (each_cons.2 ⟨fun _ hc => absurd hc (by decide), each_nil⟩)
  rw [Scan.kept, Scan.emit, if_neg (not_or.2 ⟨hslash, hstar⟩)] at heq
  exact ⟨p', _, heq.trans (congrArg (p' ++ ·) (hkeep _)), hrun'⟩

end

end StyleContract.Json
