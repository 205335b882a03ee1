import StyleContract.Contract.Rule
import StyleContract.Proofs.Text.Digits
import StyleContract.Proofs.Text.Offsets
import StyleContract.Proofs.Text.Spans

/-!
# Proofs — Contract — Place

The hash of a place is sixteen characters long, whatever the place: the digest that it is cut from
has eight words of eight digits each. So no evidence that is made of a place lacks its hash.

`Rule.Sound` is what a contract asks of a rule: nothing is wrong with it, and each of its places
stands under its own hash.

The bytes that the hash of a place is made of tell the place. What parts the path from the lines may
stand in the path as well, so the bytes are taken apart from their end: a number reaches back as far as
there are digits (`eq_of_append_digits`), and the mark in front of it is no digit. Therefore **two
citations have one hash if and only if they cite the same place, or their bytes collide**
(`snippetHash_at_eq_iff`): distinct bytes whose digests begin with the same sixteen digits. No collision
is made by the way in which places are written.
-/

namespace StyleContract

open Text (bytes toList_toUTF8 isDigit_of_mem_toDigits)

/-! ### The length of a hash -/

theorem Sha256.length_wordText (w : UInt32) : (wordText w).length = 8 := by
  have hle : (Nat.toDigits 16 w.toNat).length ≤ 8 :=
    (Nat.length_toDigits_le_iff (by decide) (by decide)).2 w.toNat_lt
  rw [wordText, List.length_append, List.length_replicate, Nat.sub_add_cancel hle]

theorem Sha256.length_hexDigest (s : String) : (hexDigest s).length = 64 := by
  have hsum (ws : List UInt32) : (ws.flatMap wordText).length = 8 * ws.length := by
    induction ws with
    | nil => rfl
    | cons w ws ih =>
        rw [List.flatMap_cons, List.length_append, length_wordText, ih, List.length_cons,
          Nat.mul_succ, Nat.add_comm]
  rw [hexDigest, String.length_ofList, hsum]
  rfl

theorem length_placeHash (path : String) (lines : Lines) : (placeHash path lines).length = 16 := by
  have hdigest := Sha256.length_hexDigest (placeText path lines)
  rw [← String.length_toList] at hdigest
  rw [placeHash, String.length_ofList, List.length_take, hdigest]
  rfl

theorem placeHash_ne_empty (path : String) (lines : Lines) : placeHash path lines ≠ "" := by
  intro h
  have hlength := length_placeHash path lines
  rw [h] at hlength
  exact absurd hlength (by decide)

/-! ### Rules that a contract can hold -/

/-- A piece of evidence that carries the hash of its own place. -/
def Evidence.Anchored (e : Evidence) : Prop := e.snippetHash = placeHash e.path e.lines

theorem Evidence.anchored_at (path : String) (lines : Lines) : (Evidence.at path lines).Anchored :=
  rfl

/-- A rule that a contract can hold. -/
structure Rule.Sound (r : Rule) : Prop where
  problems_eq_nil : r.problems = []
  anchored : ∀ e ∈ r.evidence, e.Anchored

/-! ### Messages -/

namespace Sha256

/-- The first sixteen hexadecimal digits of the digest of a message. -/
def shortDigest (message : List UInt8) : String :=
  String.ofList (((digest message).flatMap wordText).take 16)

/-- Distinct messages whose digests begin alike. -/
structure Collide (a b : List UInt8) : Prop where
  ne : a ≠ b
  shortDigest_eq : shortDigest a = shortDigest b

theorem shortDigest_eq_iff {a b : List UInt8} :
    shortDigest a = shortDigest b ↔ a = b ∨ Collide a b := by
  constructor
  · intro h
    by_cases heq : a = b
    · exact .inl heq
    · exact .inr ⟨heq, h⟩
  · rintro (rfl | hcollide)
    · rfl
    · exact hcollide.shortDigest_eq

end Sha256

/-! ### Numbers at the end of a text -/

variable {as bs ds es : List Char} {c d : Char}

/-- Digits at the end of a text are told from what is in front of them by a mark that is none. -/
theorem Text.eq_of_append_digits (hc : c.isDigit = false) (hd : d.isDigit = false)
    (hds : ∀ x ∈ ds, x.isDigit = true) (hes : ∀ x ∈ es, x.isDigit = true)
    (h : as ++ c :: ds = bs ++ d :: es) : as = bs ∧ ds = es := by
  have hreverse : ds.reverse ++ c :: as.reverse = es.reverse ++ d :: bs.reverse := by
    simpa using congrArg List.reverse h
  have hdigits : ds.reverse = es.reverse := by
    have hleft : (ds.reverse ++ c :: as.reverse).takeWhile Char.isDigit = ds.reverse :=
      takeWhile_append_of_head (fun x hx => hds x (List.mem_reverse.1 hx)) (by simp [hc])
    have hright : (es.reverse ++ d :: bs.reverse).takeWhile Char.isDigit = es.reverse :=
      takeWhile_append_of_head (fun x hx => hes x (List.mem_reverse.1 hx)) (by simp [hd])
    rw [← hleft, hreverse, hright]
  rw [hdigits, List.append_cancel_left_eq, List.cons.injEq, List.reverse_inj] at hreverse
  exact ⟨hreverse.2, List.reverse_inj.1 hdigits⟩

theorem Text.bytes_injective {s t : String} (h : bytes s = bytes t) : s = t := by
  rw [bytes_eq, bytes_eq] at h
  have hst : s.toList <+: t.toList :=
    flatMap_utf8EncodeChar_prefix_iff.1 (h ▸ List.prefix_refl _)
  have hts : t.toList <+: s.toList :=
    flatMap_utf8EncodeChar_prefix_iff.1 (h ▸ List.prefix_refl _)
  exact String.toList_inj.1 (hst.eq_of_length_le hts.length_le)

/-! ### Places -/

variable {p q : String} {l m : Lines}

theorem toList_placeText (p : String) (l : Lines) :
    (placeText p l).toList =
      (p.toList ++ ':' :: Nat.toDigits 10 l.first.toNat) ++ '-' :: Nat.toDigits 10 l.last.toNat := by
  have hnumber (n : Nat) : (toString n).toList = Nat.toDigits 10 n := String.toList_ofList
  simp only [placeText, String.toList_append, hnumber]
  simp

/-- **The text of a place tells the place**, whatever stands in its path. -/
theorem placeText_inj : placeText p l = placeText q m ↔ p = q ∧ l = m := by
  refine ⟨fun h => ?_, fun h => by rw [h.1, h.2]⟩
  have htext := congrArg String.toList h
  rw [toList_placeText, toList_placeText] at htext
  -- the last line is at the end, and the first line at the end of what is left
  obtain ⟨hfront, hlast⟩ := Text.eq_of_append_digits rfl rfl (fun _ => isDigit_of_mem_toDigits)
    (fun _ => isDigit_of_mem_toDigits) htext
  obtain ⟨hpath, hfirst⟩ := Text.eq_of_append_digits rfl rfl (fun _ => isDigit_of_mem_toDigits)
    (fun _ => isDigit_of_mem_toDigits) hfront
  have hlines : l = m := by
    cases l
    cases m
    rw [Lines.mk.injEq]
    exact ⟨UInt32.toNat_inj.1 (Text.toDigits_injective hfirst),
      UInt32.toNat_inj.1 (Text.toDigits_injective hlast)⟩
  exact ⟨String.toList_inj.1 hpath, hlines⟩

/-- The bytes that the hash of a place is made of. -/
def placeBytes (path : String) (lines : Lines) : List UInt8 := (placeText path lines).toUTF8.toList

theorem snippetHash_at (path : String) (lines : Lines) :
    (Evidence.at path lines).snippetHash = Sha256.shortDigest (placeBytes path lines) := by
  show placeHash path lines = _
  rw [placeHash, Sha256.hexDigest, String.toList_ofList]
  rfl

theorem placeBytes_inj : placeBytes p l = placeBytes q m ↔ p = q ∧ l = m := by
  rw [placeBytes, placeBytes, toList_toUTF8, toList_toUTF8, ← placeText_inj]
  exact ⟨Text.bytes_injective, fun h => by rw [h]⟩

/-- **Hashes of places.** The hash of a citation is the short digest of the bytes of its place, and these
tell the place, for any path and any two numbers of lines. So two citations have one hash if and only if
they cite the same place, or the digests of their distinct bytes begin alike. -/
theorem snippetHash_at_eq_iff (p q : String) (l m : Lines) :
    (placeBytes p l = placeBytes q m ↔ p = q ∧ l = m) ∧
      (Evidence.at p l).snippetHash = Sha256.shortDigest (placeBytes p l) ∧
      ((Evidence.at p l).snippetHash = (Evidence.at q m).snippetHash ↔
        (p = q ∧ l = m) ∨ Sha256.Collide (placeBytes p l) (placeBytes q m)) := by
  refine ⟨placeBytes_inj, snippetHash_at p l, ?_⟩
  rw [snippetHash_at, snippetHash_at, Sha256.shortDigest_eq_iff, placeBytes_inj]

end StyleContract
