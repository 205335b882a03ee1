import StyleContract.Proofs.Signal.Sources
import StyleContract.Proofs.Text.Offsets

/-!
# Proofs — Signal — Searches

The commands of a definition are searched for in its text one after the other, each from the end of the one
before it on. `searches` says this in bytes: a search starts at a cursor and may find its command at an
offset, and the next cursor stands behind what was found. The lines that are cited are those of the offsets
(`linesOf_eq_map_searches`).

**A search that starts between two characters ends between two characters** (`Search.Sound.next_valid`), so
no cursor cuts a character in two. What is found may be an earlier place than the one a command was written
at, but **no cursor overtakes the place of its command** (`forall₂_found_le`): if the commands stand in the text
one after the other, each search finds its command at this place or before it.

`commands_found_in_order` is what follows for a whole list of commands.
-/

namespace StyleContract

namespace Workflow

/-- A search for a command: the offset from which on the command is searched for, and the offset at which
it is found. -/
structure Search where
  command : String
  cursor : Nat
  found : Option Nat

namespace Search

/-- Where the search for the next command starts. -/
def next (search : Search) : Nat :=
  match search.found with
  | some offset => offset + search.command.utf8ByteSize
  | none => search.cursor

/-- The number of the line that is cited, as it is without a limit. -/
def number (text : String) (search : Search) : Nat :=
  match search.found with
  | some offset => Text.lineNumber text offset
  | none => 1

def line (text : String) (search : Search) : UInt32 := UInt32.ofNat (search.number text)

end Search

/-- The searches for commands in a text. -/
def searches (text : String) (cursor : Nat) : List String → List Search
  | [] => []
  | command :: more =>
    let search : Search := ⟨command, cursor, Text.firstOffset? command text cursor⟩
    search :: searches text search.next more

variable {text : String} {search later : Search} {commands : List String} {cursor offset place : Nat}

/-! ### One search -/

namespace Search

/-- A search that starts at a boundary and finds its command at the first offset from there on. -/
structure Sound (text : String) (search : Search) : Prop where
  ne_empty : search.command ≠ ""
  valid : String.Pos.Raw.IsValid text ⟨search.cursor⟩
  found_eq : search.found = Text.firstOffset? search.command text search.cursor

namespace Sound

theorem occursAt (h : search.Sound text) (hfound : search.found = some offset) :
    search.cursor ≤ offset ∧ Text.OccursAt search.command text offset := by
  obtain ⟨hle, -, hoccurs, -⟩ := Text.firstOffset?_eq_some_iff.1 (h.found_eq ▸ hfound)
  exact ⟨hle, hoccurs⟩

/-- **A search ends between two characters.** -/
theorem next_valid (h : search.Sound text) : String.Pos.Raw.IsValid text ⟨search.next⟩ := by
  rw [next]
  split
  · next offset hfound => exact (h.occursAt hfound).2.isValid_add h.ne_empty
  · exact h.valid

theorem cursor_le_next (h : search.Sound text) : search.cursor ≤ search.next := by
  rw [next]
  split
  · next offset hfound => exact Nat.le_add_right_of_le (h.occursAt hfound).1
  · exact Nat.le_refl _

/-- What a later search finds is apart from what was found. -/
theorem apart (h : later.Sound text) (hle : search.next ≤ later.cursor) {behind : Nat}
    (hfound : search.found = some offset) (hlater : later.found = some behind) :
    offset + search.command.utf8ByteSize ≤ behind := by
  have hnext : search.next = offset + search.command.utf8ByteSize := by rw [next, hfound]
  exact hnext ▸ Nat.le_trans hle (h.occursAt hlater).1

theorem toNat_line (h : search.Sound text) (hshort : Text.IsShort text) :
    (search.line text).toNat = search.number text := by
  refine UInt32.toNat_ofNat_of_lt' ?_
  rw [number]
  split
  · next offset hfound =>
    exact Nat.lt_of_le_of_lt ((h.occursAt hfound).2.lineNumber_le h.ne_empty) hshort
  · decide

end Sound

end Search

/-! ### All searches -/

theorem sound_of_mem_searches (hne : "" ∉ commands) (hvalid : String.Pos.Raw.IsValid text ⟨cursor⟩)
    (h : search ∈ searches text cursor commands) : search.Sound text ∧ cursor ≤ search.cursor := by
  induction commands generalizing cursor with
  | nil => cases h
  | cons command more ih =>
      rw [List.mem_cons, not_or] at hne
      have hsound : Search.Sound text ⟨command, cursor, Text.firstOffset? command text cursor⟩ :=
        ⟨Ne.symm hne.1, hvalid, rfl⟩
      rcases List.mem_cons.1 h with rfl | h
      · exact ⟨hsound, Nat.le_refl _⟩
      · obtain ⟨hlater, hle⟩ := ih hne.2 hsound.next_valid h
        exact ⟨hlater, Nat.le_trans hsound.cursor_le_next hle⟩

/-- A later search starts where an earlier one ended, or behind. -/
theorem pairwise_searches (hne : "" ∉ commands) (hvalid : String.Pos.Raw.IsValid text ⟨cursor⟩) :
    (searches text cursor commands).Pairwise fun search later => search.next ≤ later.cursor := by
  induction commands generalizing cursor with
  | nil => exact List.Pairwise.nil
  | cons command more ih =>
      rw [List.mem_cons, not_or] at hne
      have hsound : Search.Sound text ⟨command, cursor, Text.firstOffset? command text cursor⟩ :=
        ⟨Ne.symm hne.1, hvalid, rfl⟩
      exact List.Pairwise.cons
        (fun later hlater => (sound_of_mem_searches hne.2 hsound.next_valid hlater).2)
        (ih hne.2 hsound.next_valid)

/-- **The lines that are cited are those of the searches.** -/
theorem linesOf_eq_map_searches (hne : "" ∉ commands) (hplace : place ≤ text.toList.length) :
    linesOf (Text.lineOfPlace text.toList place) (text.toList.drop place) commands =
      (searches text (Text.offsetOf text.toList place) commands).map fun search =>
        (search.command, search.line text) := by
  induction commands generalizing place with
  | nil => rfl
  | cons command more ih =>
      rw [List.mem_cons, not_or] at hne
      have hcommand := Ne.symm hne.1
      rw [linesOf, searches, List.map_cons, Text.firstOffset?_offsetOf hcommand hplace]
      cases hfound : Text.placeOf? command.toList (text.toList.drop place) with
      | none => exact congrArg _ (ih hne.2 hplace)
      | some n =>
          obtain ⟨hstands, hn, -⟩ := Text.placeOf?_eq_some_iff.1 hfound
          rw [List.length_drop] at hn
          rw [List.drop_drop] at hstands
          have hle := Text.add_length_le hstands (by omega)
          dsimp only [Option.map_some, Search.next]
          rw [← Text.offsetOf_add_length hstands, ← lineOfPlace_add, ← lineOfPlace_add,
            List.drop_drop, ← Nat.add_assoc, ih hne.2 hle, ← Text.lineOfByte_offsetOf,
            Text.lineOfByte_eq]
          rfl

/-! ### Commands that stand one after the other -/

/-- Commands with offsets at which they stand in a text, in order and apart from each other. -/
structure StandAt (text : String) (places : List (String × Nat)) : Prop where
  occursAt : ∀ p ∈ places, Text.OccursAt p.1 text p.2
  apart : places.Pairwise fun p q => p.2 + p.1.utf8ByteSize ≤ q.2

/-- **No cursor overtakes the place of its command.** -/
theorem forall₂_found_le {places : List (String × Nat)} (hne : "" ∉ places.map Prod.fst)
    (h : StandAt text places) (hcursor : ∀ p ∈ places, cursor ≤ p.2) :
    List.Forall₂ (fun search p => ∃ offset ≤ p.2, search.found = some offset)
      (searches text cursor (places.map Prod.fst)) places := by
  induction places generalizing cursor with
  | nil => exact List.Forall₂.nil
  | cons p places ih =>
      obtain ⟨command, offset⟩ := p
      rw [List.map_cons, List.mem_cons, not_or] at hne
      obtain ⟨hfirst, hrest⟩ := List.forall_mem_cons.1 h.occursAt
      obtain ⟨hapart, hpairs⟩ := List.pairwise_cons.1 h.apart
      obtain ⟨found, hle, hfound⟩ := Text.exists_firstOffset?_le hfirst (Ne.symm hne.1)
        (hcursor _ List.mem_cons_self)
      rw [List.map_cons, searches]
      refine List.Forall₂.cons ⟨found, hle, hfound⟩ (ih hne.2 ⟨hrest, hpairs⟩ fun q hq => ?_)
      -- the next cursor stands behind what was found, the next command behind this one
      rw [Search.next, hfound]
      exact Nat.le_trans (Nat.add_le_add_right hle _) (hapart q hq)

theorem exists_found_of_forall₂ {found : List Search} {places : List (String × Nat)}
    (h : List.Forall₂ (fun search p => ∃ offset ≤ p.2, search.found = some offset) found places)
    (hmem : search ∈ found) : ∃ offset, search.found = some offset := by
  induction h with
  | nil => cases hmem
  | cons hfirst _ ih =>
      rcases List.mem_cons.1 hmem with rfl | hmem
      · obtain ⟨offset, -, hfound⟩ := hfirst
        exact ⟨offset, hfound⟩
      · exact ih hmem

/-- Lines do not go up while commands are found. -/
theorem pairwise_numbers (hne : "" ∉ commands) (hvalid : String.Pos.Raw.IsValid text ⟨cursor⟩)
    (hfound : ∀ search ∈ searches text cursor commands, ∃ offset, search.found = some offset) :
    (searches text cursor commands).Pairwise fun search later =>
      search.number text ≤ later.number text := by
  refine (pairwise_searches hne hvalid).imp_of_mem fun {search later} hmem hlater hle => ?_
  obtain ⟨offset, hoffset⟩ := hfound search hmem
  obtain ⟨behind, hbehind⟩ := hfound later hlater
  have hapart := (sound_of_mem_searches hne hvalid hlater).1.apart hle hoffset hbehind
  rw [Search.number, Search.number, hoffset, hbehind]
  exact Text.lineNumber_mono (Nat.le_of_add_right_le hapart)

/-- **Searches for commands.** The lines that are cited are those of the searches, no search starts or ends
within a character, and what is found is apart from all that was found before. If the commands stand in the
text one after the other, every search finds its command, at the place where it stands or before, and no
line is above the one before it. -/
theorem commands_found_in_order (text : String) {commands : List String} (hne : "" ∉ commands) :
    linesOf 1 text.toList commands =
        ((searches text 0 commands).map fun search => (search.command, search.line text)) ∧
      (∀ search ∈ searches text 0 commands,
        search.cursor ≤ text.utf8ByteSize ∧ String.Pos.Raw.IsValid text ⟨search.cursor⟩ ∧
          String.Pos.Raw.IsValid text ⟨search.next⟩) ∧
      ((searches text 0 commands).Pairwise fun search later =>
        ∀ offset ∈ search.found, ∀ behind ∈ later.found,
          offset < behind ∧ offset + search.command.utf8ByteSize ≤ behind) ∧
      ∀ places, places.map Prod.fst = commands → StandAt text places →
        List.Forall₂ (fun search p => ∃ offset ≤ p.2, search.found = some offset)
            (searches text 0 commands) places ∧
          ((searches text 0 commands).Pairwise fun search later =>
            search.number text ≤ later.number text) ∧
          (Text.IsShort text →
            ((linesOf 1 text.toList commands).map Prod.snd).Pairwise (· ≤ ·)) := by
  have hvalid : String.Pos.Raw.IsValid text ⟨0⟩ := String.Pos.Raw.isValid_zero
  have hsound : ∀ search ∈ searches text 0 commands, search.Sound text := fun search hmem =>
    (sound_of_mem_searches hne hvalid hmem).1
  have hlines : linesOf 1 text.toList commands =
      (searches text 0 commands).map fun search => (search.command, search.line text) :=
    linesOf_eq_map_searches hne (Nat.zero_le _)
  refine ⟨hlines, fun search hmem => ?_, ?_, ?_⟩
  · have h := hsound search hmem
    exact ⟨h.valid.le_rawEndPos, h.valid, h.next_valid⟩
  · refine (pairwise_searches hne hvalid).imp_of_mem fun {search later} hmem hlater hle => ?_
    intro offset hfound behind hbehind
    have hapart := (hsound later hlater).apart hle hfound hbehind
    have hsize : search.command.utf8ByteSize ≠ 0 := fun hzero =>
      (hsound search hmem).ne_empty (String.utf8ByteSize_eq_zero_iff.1 hzero)
    exact ⟨by omega, hapart⟩
  · rintro places rfl hplaces
    have hfinds := forall₂_found_le hne hplaces fun _ _ => Nat.zero_le _
    have hnumbers := pairwise_numbers hne hvalid fun search hmem =>
      exists_found_of_forall₂ hfinds hmem
    refine ⟨hfinds, hnumbers, fun hshort => ?_⟩
    rw [hlines, List.map_map, List.pairwise_map]
    refine hnumbers.imp_of_mem fun {search later} hmem hlater hle => UInt32.le_iff_toNat_le.2 ?_
    exact ((hsound search hmem).toNat_line hshort).trans_le
      (hle.trans_eq ((hsound later hlater).toNat_line hshort).symm)

/-- A definition with a command that a comment above it names, too. -/
def namedTwice : String := "# é: make\nrun: make\nscript: make all\n"

/-- The first command is found in the comment, which is above its place, and the second one where it
stands. -/
theorem commands_found_in_order_namedTwice :
    "" ∉ ["make", "make all"] ∧ StandAt namedTwice [("make", 16), ("make all", 29)] ∧
      Text.IsShort namedTwice ∧
      linesOf 1 namedTwice.toList ["make", "make all"] = [("make", 1), ("make all", 3)] ∧
      List.Forall₂ (fun search p => ∃ offset ≤ p.2, search.found = some offset)
        (searches namedTwice 0 ["make", "make all"]) [("make", 16), ("make all", 29)] ∧
      ((linesOf 1 namedTwice.toList ["make", "make all"]).map Prod.snd).Pairwise (· ≤ ·) := by
  have hplaces : StandAt namedTwice [("make", 16), ("make all", 29)] := ⟨by decide, by decide⟩
  have hshort : Text.IsShort namedTwice :=
    show (Text.lines namedTwice).length < 2 ^ 32 by decide
  obtain ⟨-, -, -, hstand⟩ :=
    commands_found_in_order namedTwice (show "" ∉ ["make", "make all"] by decide)
  obtain ⟨hfinds, -, hlines⟩ := hstand _ rfl hplaces
  exact ⟨by decide, hplaces, hshort, by decide, hfinds, hlines hshort⟩

end Workflow

end StyleContract
