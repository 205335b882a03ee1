import Mathlib.Data.List.Induction
import StyleContract.Proofs.Keyed
import StyleContract.Synthesis.Projection

/-!
# Proofs — Synthesis — Table

A table is read row by row into two maps, one by rule id and one by kind. After the rows so far, each map
finds the row that a search through them finds (`Index.Holds`); this is what `Index.Holds.enter_of_fresh`
keeps, as a row that is entered has a kind and a rule id that no row before it had. Of a row that repeats
one, the maps say which fault it has (`Index.Holds.enter_of_fault`).

So either all kinds and rule ids of a table are distinct or there is a first row that repeats one
(`distinct_or_fault`), and **a table is verified exactly** (`Projector.table_verified`).
-/

namespace StyleContract

namespace Projection

variable {rows before front back : List Projection} {row : Projection} {e : Error} {x : Index}

/-- No kind and no rule id stands in two rows. -/
structure Distinct (rows : List Projection) : Prop where
  kinds : (rows.map (·.kind)).Nodup
  ruleIds : (rows.map (·.ruleId)).Nodup

/-- A row repeats a row before it: its rule id belongs to another kind, or else its kind is there. -/
inductive Fault (before : List Projection) (row : Projection) : Error → Prop
  | owned {first : Projection} (hfirst : first ∈ before) (hid : first.ruleId = row.ruleId)
      (hkind : first.kind ≠ row.kind) :
      Fault before row (.duplicateProjection row.ruleId first.kind row.kind)
  | listed (hid : ∀ first ∈ before, first.ruleId = row.ruleId → first.kind = row.kind)
      (hkind : row.kind ∈ before.map (·.kind)) :
      Fault before row (.internal ("projection table lists kind '" ++ row.kind ++ "' twice"))

/-- A row repeats no row before it. -/
def Fresh (before : List Projection) (row : Projection) : Prop :=
  row.kind ∉ before.map (·.kind) ∧ row.ruleId ∉ before.map (·.ruleId)

/-! ### Tables -/

theorem Distinct.append (h : Distinct rows) (hrow : Fresh rows row) : Distinct (rows ++ [row]) where
  kinds := by
    rw [List.map_append, List.map_singleton, ← List.concat_eq_append]
    exact h.kinds.concat hrow.1
  ruleIds := by
    rw [List.map_append, List.map_singleton, ← List.concat_eq_append]
    exact h.ruleIds.concat hrow.2

theorem Distinct.fresh (h : Distinct (before ++ row :: rows)) : Fresh before row := by
  constructor
  · intro hmem
    have hnodup := h.kinds
    rw [List.map_append, List.nodup_append] at hnodup
    exact hnodup.2.2 _ hmem _ List.mem_cons_self rfl
  · intro hmem
    have hnodup := h.ruleIds
    rw [List.map_append, List.nodup_append] at hnodup
    exact hnodup.2.2 _ hmem _ List.mem_cons_self rfl

/-- A row repeats one before it or it does not. -/
theorem fresh_or_fault (before : List Projection) (row : Projection) :
    Fresh before row ∨ ∃ e, Fault before row e := by
  by_cases howned : ∃ first ∈ before, first.ruleId = row.ruleId ∧ first.kind ≠ row.kind
  · obtain ⟨first, hfirst, hid, hkind⟩ := howned
    exact .inr ⟨_, .owned hfirst hid hkind⟩
  have hid : ∀ first ∈ before, first.ruleId = row.ruleId → first.kind = row.kind := by
    intro first hfirst hid
    by_contra hkind
    exact howned ⟨first, hfirst, hid, hkind⟩
  by_cases hlisted : row.kind ∈ before.map (·.kind)
  · exact .inr ⟨_, .listed hid hlisted⟩
  · refine .inl ⟨hlisted, fun hmem => hlisted ?_⟩
    obtain ⟨first, hfirst, heq⟩ := List.mem_map.1 hmem
    exact List.mem_map.2 ⟨first, hfirst, hid first hfirst heq⟩

/-- **The rows of a table are distinct, or there is a first one that repeats an earlier one.** -/
theorem distinct_or_fault (rows : List Projection) :
    Distinct rows ∨ ∃ front row back e, rows = front ++ row :: back ∧ Distinct front ∧
      Fault front row e := by
  induction rows using List.reverseRecOn with
  | nil => exact .inl ⟨List.nodup_nil, List.nodup_nil⟩
  | append_singleton rows row ih =>
      rcases ih with hdistinct | ⟨front, first, back, e, rfl, hfront, hfault⟩
      · rcases fresh_or_fault rows row with hfresh | ⟨e, hfault⟩
        · exact .inl (hdistinct.append hfresh)
        · exact .inr ⟨rows, row, [], e, rfl, hdistinct, hfault⟩
      · exact .inr ⟨front, first, back ++ [row], e, by simp, hfront, hfault⟩

/-! ### The maps -/

/-- The maps of an index are those of some rows. -/
structure Index.Holds (x : Index) (rows : List Projection) : Prop where
  owner (id : String) : x.owners.get? id = (rows.find? (·.ruleId == id)).map (·.kind)
  row (kind : String) : x.byKind.get? kind = rows.find? (·.kind == kind)
  perm : (x.byKind.entries.map (·.2)).Perm rows

theorem Index.holds_nil : Index.Holds {} [] := ⟨fun _ => rfl, fun _ => rfl, .refl _⟩

/-- A search by a key that is new finds the row of the key behind the others. -/
theorem find?_append_of_new {key : Projection → String} (hnew : key row ∉ rows.map key) (k : String) :
    (rows ++ [row]).find? (key · == k) =
      if k = key row then some row else rows.find? (key · == k) := by
  split
  · next hk =>
    have hnone : rows.find? (key · == k) = none := by
      refine List.find?_eq_none.2 fun other hother heq => hnew ?_
      rw [← hk, ← beq_iff_eq.1 heq]
      exact List.mem_map_of_mem hother
    rw [List.find?_append, hnone, Option.none_or, List.find?_cons_of_pos (by simp [hk])]
  · next hk =>
    rw [List.find?_append, List.find?_cons_of_neg (by simpa using Ne.symm hk), List.find?_nil,
      Option.or_none]

namespace Index.Holds

theorem get?_kind_eq_none (h : x.Holds rows) (hrow : Fresh rows row) :
    x.byKind.get? row.kind = none := by
  rw [h.row, List.find?_eq_none]
  exact fun other hother heq => hrow.1 (List.mem_map.2 ⟨other, hother, beq_iff_eq.1 heq⟩)

/-- **A row that repeats none is entered**, and the maps are those of all rows then. -/
theorem enter_of_fresh (h : x.Holds rows) (hrow : Fresh rows row) :
    ∃ y, x.enter row = .ok y ∧ y.Holds (rows ++ [row]) := by
  have hkind := h.get?_kind_eq_none hrow
  have howner : x.owners.get? row.ruleId = none := by
    rw [h.owner, Option.map_eq_none_iff, List.find?_eq_none]
    exact fun other hother heq => hrow.2 (List.mem_map.2 ⟨other, hother, beq_iff_eq.1 heq⟩)
  refine ⟨⟨x.owners.insert row.ruleId row.kind, x.byKind.insert row.kind row⟩, ?_, ?_, ?_, ?_⟩
  · rw [enter, howner, Option.filter_none, hkind]
    rfl
  · intro id
    rw [find?_append_of_new hrow.2]
    split
    · next hid => exact hid ▸ Keyed.get?_insert_self _ _ _
    · next hid => exact (Keyed.get?_insert_of_ne hid _ _).trans (h.owner id)
  · intro kind
    rw [find?_append_of_new hrow.1]
    split
    · next hk => exact hk ▸ Keyed.get?_insert_self _ _ _
    · next hk => exact (Keyed.get?_insert_of_ne hk _ _).trans (h.row kind)
  · have hentries : ((x.byKind.insert row.kind row).entries.map (·.2)).Perm
        (row :: x.byKind.entries.map (·.2)) := (Keyed.perm_insert hkind).map _
    exact (hentries.trans (h.perm.cons row)).trans (List.perm_append_singleton row rows).symm

/-- **A row that repeats one is refused** for the fault that it has. -/
theorem enter_of_fault (h : x.Holds rows) (hrows : Distinct rows) (hfault : Fault rows row e) :
    x.enter row = .error e := by
  cases hfault with
  | @owned first hfirst hid hkind =>
      have howner : x.owners.get? row.ruleId = some first.kind := by
        rw [h.owner, ← hid, find?_of_nodup_keys hrows.ruleIds hfirst]
        rfl
      rw [enter, howner, Option.filter_some, if_pos (by simpa using hkind)]
  | listed hid hkind =>
      have howner : (x.owners.get? row.ruleId).filter (· ≠ row.kind) = none := by
        rw [h.owner]
        cases hfind : rows.find? (·.ruleId == row.ruleId) with
        | none => rfl
        | some first =>
            have heq := hid first (List.mem_of_find?_eq_some hfind)
              (by simpa using List.find?_some hfind)
            rw [Option.map_some, Option.filter_some, heq]
            simp
      obtain ⟨first, hfirst, heq⟩ := List.mem_map.1 hkind
      have hrow : x.byKind.get? row.kind = some first := by
        rw [h.row, ← heq, find?_of_nodup_keys hrows.kinds hfirst]
      rw [enter, howner, hrow]
      rfl

/-- Rows that repeat none are entered one after the other. -/
theorem foldlM_enter (h : x.Holds front) (hrows : Distinct (front ++ rows)) :
    ∃ y, rows.foldlM Index.enter x = .ok y ∧ y.Holds (front ++ rows) := by
  induction rows generalizing x front with
  | nil => exact ⟨x, rfl, (List.append_nil front).symm ▸ h⟩
  | cons row rows ih =>
      obtain ⟨y, henter, hy⟩ := h.enter_of_fresh hrows.fresh
      have hstep : front ++ row :: rows = front ++ [row] ++ rows := by simp
      rw [hstep] at hrows ⊢
      obtain ⟨z, hfold, hz⟩ := ih hy hrows
      refine ⟨z, ?_, hz⟩
      rw [List.foldlM_cons, henter]
      exact hfold

end Index.Holds

theorem index_of_distinct (h : Distinct rows) : ∃ x, index rows = .ok x ∧ x.Holds rows :=
  Index.holds_nil.foldlM_enter h

theorem index_of_fault (hrows : rows = front ++ row :: back) (hfront : Distinct front)
    (hfault : Fault front row e) : index rows = .error e := by
  obtain ⟨x, hindex, hx⟩ := index_of_distinct hfront
  rw [index] at hindex
  rw [index, hrows, List.foldlM_append, hindex]
  have hrow : (row :: back).foldlM Index.enter x = .error e := by
    rw [List.foldlM_cons, hx.enter_of_fault hfront hfault]
    rfl
  exact hrow

theorem index_eq_error_iff :
    index rows = .error e ↔ ∃ front row back, rows = front ++ row :: back ∧ Distinct front ∧
      Fault front row e := by
  refine ⟨fun h => ?_, fun ⟨_, _, _, hrows, hfront, hfault⟩ => index_of_fault hrows hfront hfault⟩
  rcases distinct_or_fault rows with hdistinct | ⟨front, row, back, e', hrows, hfront, hfault⟩
  · obtain ⟨x, hindex, -⟩ := index_of_distinct hdistinct
    rw [h] at hindex
    cases hindex
  · rw [index_of_fault hrows hfront hfault] at h
    cases h
    exact ⟨front, row, back, hrows, hfront, hfault⟩

theorem index_eq_ok (h : index rows = .ok x) : Distinct rows ∧ x.Holds rows := by
  rcases distinct_or_fault rows with hdistinct | ⟨front, row, back, e, hrows, hfront, hfault⟩
  · obtain ⟨y, hindex, hy⟩ := index_of_distinct hdistinct
    rw [h] at hindex
    cases hindex
    exact ⟨hdistinct, hy⟩
  · rw [index_of_fault hrows hfront hfault] at h
    cases h

end Projection

namespace Projector
open Projection (Distinct Fault)

variable {rows : List Projection} {p : Projector} {e : Error}

theorem distinct (p : Projector) : Distinct p.rows := (Projection.index_eq_ok p.indexed).1

theorem holds (p : Projector) : p.index.Holds p.rows := (Projection.index_eq_ok p.indexed).2

theorem rows_standard : standard.rows = Projection.table := by
  unfold standard
  split
  · rfl
  · next h => exact absurd Projection.isOk_index_table (by rw [h]; exact Bool.false_ne_true)

/-- The rule of a signal is that of the first row of its kind. -/
theorem ruleOf?_eq (p : Projector) (s : Signal) :
    p.ruleOf? s = (p.rows.find? (·.kind == s.kind)).bind (·.rule? s) := by
  rw [ruleOf?, p.holds.row]

/-- The rules of signals are those that the rows of their kinds give, and there is one such row at most. -/
theorem project_eq (p : Projector) (signals : List Signal) :
    p.project signals = signals.flatMap fun s =>
      (p.rows.filter (·.kind == s.kind)).filterMap (·.rule? s) := by
  rw [project, List.filterMap_eq_flatMap_toList]
  refine List.flatMap_congr fun s _ => ?_
  rw [ruleOf?_eq, filter_of_nodup_keys p.distinct.kinds]
  cases hrow : p.rows.find? (·.kind == s.kind) with
  | none => rfl
  | some row => cases hrule : row.rule? s <;> simp [hrule]

theorem perm_ruleIds (p : Projector) : p.ruleIds.Perm (p.rows.map (·.ruleId)) := by
  have hperm := p.holds.perm.map (·.ruleId)
  rw [List.map_map] at hperm
  exact (List.mergeSort_perm _ _).trans hperm

/-- **The rule ids come in strictly ascending order.** -/
theorem pairwise_ruleIds (p : Projector) : p.ruleIds.Pairwise (· < ·) := by
  have hle : p.ruleIds.Pairwise fun a b => decide (a ≤ b) = true := by
    refine List.pairwise_mergeSort (fun a b c hab hbc => ?_) (fun a b => ?_) _
    · exact decide_eq_true (String.le_trans (of_decide_eq_true hab) (of_decide_eq_true hbc))
    · simpa using String.le_total a b
  have hne : p.ruleIds.Pairwise (· ≠ ·) := p.perm_ruleIds.symm.nodup p.distinct.ruleIds
  refine (hle.and hne).imp fun {a b} h => ?_
  exact Decidable.byContradiction fun hlt =>
    h.2 (String.le_antisymm (of_decide_eq_true h.1) (String.not_lt.1 hlt))

theorem ofTable_eq_ok (h : ofTable rows = .ok p) : p.rows = rows := by
  unfold ofTable at h
  split at h
  · cases h
  · cases h
    rfl

theorem ofTable_rows (p : Projector) : ofTable p.rows = .ok p := by
  obtain ⟨rows, x, hindex⟩ := p
  unfold ofTable
  split
  · next h => cases hindex.symm.trans h
  · next h =>
    cases hindex.symm.trans h
    rfl

theorem ofTable_eq_error_iff : ofTable rows = .error e ↔ Projection.index rows = .error e := by
  unfold ofTable
  split
  · next h => rw [h, Except.error.injEq, Except.error.injEq]
  · next h => simp [h]

theorem exists_ofTable_iff : (∃ p, ofTable rows = .ok p) ↔ Distinct rows := by
  constructor
  · rintro ⟨p, h⟩
    exact ofTable_eq_ok h ▸ p.distinct
  · intro h
    obtain ⟨x, hindex, -⟩ := Projection.index_of_distinct h
    cases htable : ofTable rows with
    | ok p => exact ⟨p, rfl⟩
    | error e =>
        rw [ofTable_eq_error_iff.1 htable] at hindex
        cases hindex

/-- **A table is verified exactly.** It is accepted if and only if its kinds are distinct and so are its
rule ids. Else the first row that repeats an earlier one is told, with its fault: that its rule id belongs
to another kind, which is named, or else that its kind is listed twice. The projector of an accepted table
gives for each signal what the row of its kind gives, in order, and has the rule ids of all rows, in
strictly ascending order. -/
theorem table_verified (rows : List Projection) :
    ((∃ p, ofTable rows = .ok p) ↔ Distinct rows) ∧
    (∀ e, ofTable rows = .error e ↔ ∃ front row back, rows = front ++ row :: back ∧
      Distinct front ∧ Fault front row e) ∧
    ∀ p, ofTable rows = .ok p →
      (∀ signals, p.project signals = signals.flatMap fun s =>
        (rows.filter (·.kind == s.kind)).filterMap (·.rule? s)) ∧
      p.ruleIds.Pairwise (· < ·) ∧ p.ruleIds.Perm (rows.map (·.ruleId)) := by
  refine ⟨exists_ofTable_iff, fun e => ofTable_eq_error_iff.trans Projection.index_eq_error_iff, ?_⟩
  intro p h
  rw [← ofTable_eq_ok h]
  exact ⟨p.project_eq, p.pairwise_ruleIds, p.perm_ruleIds⟩

/-- A row with a kind of its own, whose rule id belongs to the first row of the built-in table. -/
def secondLineLength : Projection := ⟨"config.ruff.lineLength", "PY-FMT-001", Projection.black⟩

theorem table_verified_standard :
    ofTable Projection.table = .ok standard ∧ standard.ruleIds.Pairwise (· < ·) ∧
      ofTable (Projection.table ++ [secondLineLength]) = .error
        (.duplicateProjection "PY-FMT-001" "config.black.lineLength" "config.ruff.lineLength") := by
  have hstandard : ofTable Projection.table = .ok standard := rows_standard ▸ ofTable_rows standard
  have hdistinct : Distinct Projection.table := ⟨by decide, by decide⟩
  have hfault : Fault Projection.table secondLineLength
      (.duplicateProjection "PY-FMT-001" "config.black.lineLength" "config.ruff.lineLength") :=
    .owned (List.mem_cons_self : (⟨Signal.blackLineLengthKind, "PY-FMT-001", Projection.black⟩ :
      Projection) ∈ Projection.table) rfl (by decide)
  exact ⟨hstandard, ((table_verified _).2.2 standard hstandard).2.1,
    ((table_verified _).2.1 _).2 ⟨_, _, [], rfl, hdistinct, hfault⟩⟩

end Projector

end StyleContract
