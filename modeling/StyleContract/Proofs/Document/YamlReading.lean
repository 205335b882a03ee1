import StyleContract.Document.YamlReading
import StyleContract.Proofs.Document.Faithful

/-!
# Proofs — Document — YAML

What a YAML node says. A scalar says what its text stands for in its style; a sequence says its
items one after the other, and a mapping its entries, whose names may be in any style. Nothing that
has a tag says anything here.

**YAML is read as what its nodes say** (`faithful_yaml`).
-/

namespace StyleContract.Yaml

/-- A scalar without a tag that stands for something. -/
def Node.SaysLeaf (n : Node) (core : Core) : Prop :=
  ∃ style text, n = .scalar none style text ∧ Core.ofStyle style text = core

/-- A scalar without a tag that names something. -/
def Node.Names (n : Node) (name : String) : Prop := ∃ style, n = .scalar none style name

mutual

/-- A node says a value. -/
def Node.Says (n : Node) : Json → Prop
  | .null => n.SaysLeaf .null
  | .bool b => n.SaysLeaf (.bool b)
  | .num (.int i) => n.SaysLeaf (.int i)
  | .num (.float x) => n.SaysLeaf (.float x)
  | .str s => n.SaysLeaf (.text s)
  | .arr items => ∃ ns, n = .sequence none ns ∧ Node.SaysItems ns items
  | .obj members => ∃ es, n = .mapping none es ∧ Node.SaysEntries es members

def Node.SaysItems : List Node → List Json → Prop
  | ns, [] => ns = []
  | ns, v :: vs => ∃ m ms, ns = m :: ms ∧ m.Says v ∧ Node.SaysItems ms vs

def Node.SaysEntries : List (Node × Node) → List (String × Json) → Prop
  | es, [] => es = []
  | es, (name, v) :: rest =>
    ∃ k n more, es = (k, n) :: more ∧ k.Names name ∧ n.Says v ∧ Node.SaysEntries more rest

end

/-! ### Scalars -/

namespace Core

/-- What a plain text has to be for what it stands for. -/
def Fits (s : String) : Core → Prop
  | .null => s.isEmpty = true ∨ isNullWord s = true
  | .bool b => bool? s = some b
  | .int i => int? s.toList = some i
  | .float x => float? s.toList = some x
  | .text t => t = s ∧ s.isEmpty = false ∧ isNullWord s = false

theorem fits_of (s : String) : Fits s (of s) := by
  unfold of
  split
  · next hnull => exact hnull
  · next hnull =>
    have htext : Fits s (.text s) := by simpa [Fits, not_or] using hnull
    split
    · next hbool => exact hbool
    · split
      · next hint => exact hint
      · split
        · exact htext
        · split
          · next hfloat => exact hfloat
          · exact htext

theorem fits_of_eq {s : String} {core : Core} (h : of s = core) : Fits s core := h ▸ fits_of s

end Core

namespace Node

/-- What stands for something else than a text is plain. -/
theorem SaysLeaf.exists_plain {n : Node} {core : Core} (h : n.SaysLeaf core)
    (hne : ∀ s, core ≠ .text s) :
    ∃ text, n = .scalar none .plain text ∧ Core.of text = core := by
  obtain ⟨style, text, rfl, hcore⟩ := h
  unfold Core.ofStyle at hcore
  split at hcore
  · next hstyle => exact ⟨text, hstyle ▸ rfl, hcore⟩
  · exact absurd hcore.symm (hne text)

/-- What stands for a text is that text, and is not taken for nothing. -/
theorem SaysLeaf.exists_style {n : Node} {s : String} (h : n.SaysLeaf (.text s)) :
    ∃ style, n = .scalar none style s ∧
      (style = .plain → s.isEmpty = false ∧ Core.isNullWord s = false) := by
  obtain ⟨style, text, rfl, hcore⟩ := h
  unfold Core.ofStyle at hcore
  split at hcore
  · obtain ⟨rfl, hempty, hword⟩ := Core.fits_of_eq hcore
    exact ⟨style, rfl, fun _ => ⟨hempty, hword⟩⟩
  · next hstyle =>
    cases hcore
    exact ⟨style, rfl, fun hplain => absurd hplain hstyle⟩

theorem forall₂_of_saysItems {ns : List Node} {items : List Json} (h : SaysItems ns items) :
    List.Forall₂ Says ns items := by
  induction items generalizing ns with
  | nil =>
      rw [SaysItems] at h
      exact h ▸ .nil
  | cons v vs ih =>
      rw [SaysItems] at h
      obtain ⟨m, ms, rfl, hm, hms⟩ := h
      exact .cons hm (ih hms)

/-- The entries of a mapping by their names. -/
theorem exists_of_saysEntries {es : List (Node × Node)} {members : Json.Members}
    (h : SaysEntries es members) :
    ∃ entries, es.mapM (fun (k, v) => (Document.nodeText k).map (·, v)) = .ok entries ∧
      Document.SaysMembers Says entries members := by
  induction members generalizing es with
  | nil =>
      rw [SaysEntries] at h
      exact ⟨[], h ▸ rfl, .nil⟩
  | cons m rest ih =>
      obtain ⟨name, v⟩ := m
      rw [SaysEntries] at h
      obtain ⟨k, n, more, rfl, ⟨style, rfl⟩, hn, hmore⟩ := h
      obtain ⟨entries, hentries, hsays⟩ := ih hmore
      refine ⟨(name, n) :: entries, ?_, .cons ⟨rfl, hn⟩ hsays⟩
      rw [List.mapM_cons, hentries]
      rfl

end Node

end StyleContract.Yaml

namespace StyleContract.Document
open Yaml (Node Core)

theorem nodeIsNull_of_saysLeaf {n : Node} {core : Core} (h : n.SaysLeaf core)
    (hne : core ≠ .null) : nodeIsNull n = .ok false := by
  obtain ⟨style, text, rfl, hcore⟩ := h
  by_cases hplain : style = .plain
  · subst hplain
    have hnull : ¬ (text.isEmpty = true ∨ Core.isNullWord text = true) := fun hnull =>
      hne (hcore.symm.trans (if_pos hnull))
    simpa [nodeIsNull, not_or] using hnull
  · cases style <;> first | rfl | exact absurd rfl hplain

/-- **YAML is read as what its nodes say.** -/
theorem faithful_yaml : Faithful yaml Node.Says where
  notNull {n j} h hne := by
    cases j with
    | null => exact absurd rfl hne
    | bool b => exact nodeIsNull_of_saysLeaf h (by simp)
    | num number => cases number <;> exact nodeIsNull_of_saysLeaf h (by simp)
    | str s => exact nodeIsNull_of_saysLeaf h (by simp)
    | arr items =>
        obtain ⟨ns, rfl, -⟩ := h
        rfl
    | obj members =>
        obtain ⟨es, rfl, -⟩ := h
        rfl
  text h := by
    obtain ⟨style, rfl, -⟩ := Node.SaysLeaf.exists_style h
    rfl
  float h := by
    obtain ⟨text, rfl, hcore⟩ := Node.SaysLeaf.exists_plain h (by simp)
    have hfloat : Core.float? text.toList = some _ := Core.fits_of_eq hcore
    simp [yaml, nodeFloat, numeralText?, hfloat]
  int name h hleast hgreatest := by
    obtain ⟨text, rfl, hcore⟩ := Node.SaysLeaf.exists_plain h (by simp)
    have hint : Core.int? text.toList = some _ := Core.fits_of_eq hcore
    simp [yaml, nodeInt, numeralText?, hint, hleast, hgreatest]
  word h hmem := by
    obtain ⟨style, rfl, -⟩ := Node.SaysLeaf.exists_style h
    exact if_pos (List.contains_iff_mem.2 hmem)
  items h := by
    obtain ⟨ns, rfl, hns⟩ := h
    exact ⟨ns, rfl, Node.forall₂_of_saysItems hns⟩
  pair h := by
    obtain ⟨ns, rfl, hns⟩ := h
    rw [Node.SaysItems] at hns
    obtain ⟨a, ms, rfl, ha, hms⟩ := hns
    rw [Node.SaysItems] at hms
    obtain ⟨b, ms, rfl, hb, hms⟩ := hms
    rw [Node.SaysItems] at hms
    subst hms
    refine ⟨a, b, ha, hb, fun check hj hk => ?_⟩
    simp [yaml, nodePair, nodeItems, hj, hk, bind, Except.bind]
  entries h := by
    obtain ⟨es, rfl, hes⟩ := h
    exact Node.exists_of_saysEntries hes
  record h := by
    obtain ⟨es, rfl, hes⟩ := h
    obtain ⟨entries, hentries, hsays⟩ := Node.exists_of_saysEntries hes
    exact ⟨entries, hsays, fun _ _ => congrArg (· >>= _) hentries⟩
  value {v n} h hn := by
    obtain ⟨text, rfl, hcore⟩ := Node.SaysLeaf.exists_plain h (by simp)
    have hbounds : -(twoTo 63 : Int) ≤ n ∧ (n : Int) < twoTo 64 :=
      ⟨Int.le_trans (by decide) (Int.natCast_nonneg n), Int.ofNat_lt.2 hn⟩
    simp [yaml, nodeValue, Yaml.ownTag?, scalarValue, Core.ofScalar?, Core.ofStyle, hcore, hbounds]
    rfl

end StyleContract.Document
