import Mathlib.Data.List.Forall2
import StyleContract.Proofs.Json.Steps

/-!
# Proofs — Json — Containers

A list and an object are read alike: elements one after the other, with commas between them, up to a
bracket (`Encloses`). What is read is told by its elements: what holds of each holds of all
(`Encloses.forall_mem_body`), elements that are written one after the other are read so
(`Encloses.whole_written`) and are all that is read (`Encloses.of_whole_written`), and if each is read in
front of anything that closes it, so is the container in front of anything at all
(`Encloses.takenTo_whole`).

So **a value is a list, an object or without parts** (`value_cases`). A list's reader asks what begins the
next item, which is told by the item's own reader (`encloses_list`), so the two kinds differ in their
brackets and elements alone.
-/

namespace StyleContract.Json
open Document (bind_eq_ok_iff map_eq_ok_iff)

variable {α β : Type} {depth fuel : Nat} {c close : Char} {cs r rest space tail : List Char} {v : Json}
  {elem elem' : Reader α} {body body' : Nat → Reader (List α)} {whole whole' : Reader Json}
  {make : List α → Json} {as : List α} {texts : List (List Char)}

/-- The readers of a kind of container: of an element, of the elements from the first one on, and of all
that stands behind the opening bracket. -/
structure Encloses (close : Char) (elem : Reader α) (body : Nat → Reader (List α)) (whole : Reader Json)
    (make : List α → Json) : Prop where
  solid : isSpace close = false
  ne_comma : close ≠ ','
  closes (rest : List Char) : Closes (close :: rest)
  make_injective : Function.Injective make
  body_zero (cs : List Char) (r : List α × List Char) : body 0 cs ≠ .ok r
  body_succ (fuel : Nat) (cs : List Char) (as : List α) (r : List Char) :
    body (fuel + 1) cs = .ok (as, r) ↔ ∃ a more, elem cs = .ok (a, more) ∧
      (skipSpace more = close :: r ∧ as = [a] ∨ ∃ next rest, skipSpace more = ',' :: next ∧
        body fuel (skipSpace next) = .ok (rest, r) ∧ as = a :: rest)
  whole_iff (cs : List Char) (v : Json) (r : List Char) :
    whole cs = .ok (v, r) ↔ skipSpace cs = close :: r ∧ v = make [] ∨
      ∃ as, body cs.length (skipSpace cs) = .ok (as, r) ∧ v = make as

/-! ### Lists and objects -/

theorem exists_cons_of_itemsBody {items : List Json}
    (h : itemsBody (value depth) fuel (skipSpace cs) = .ok (items, r)) :
    ∃ c tail, skipSpace cs = c :: tail ∧ c ≠ ']' := by
  cases fuel with
  | zero => cases h
  | succ fuel =>
      rw [itemsBody, bind_eq_ok_iff] at h
      obtain ⟨_, hvalue, -⟩ := h
      obtain ⟨c, tail, hcs, hc, -⟩ := exists_cons_of_value hvalue
      exact ⟨c, tail, skipSpace_skipSpace.symm.trans hcs, hc⟩

theorem encloses_list (depth : Nat) :
    Encloses ']' (value depth) (itemsBody (value depth)) (listBody (value depth)) .arr where
  solid := rfl
  ne_comma := by decide
  closes _ := rfl
  make_injective _ _ := Json.arr.inj
  body_zero _ _ h := nomatch h
  body_succ fuel cs items r := by
    rw [itemsBody, bind_eq_ok_iff]
    constructor
    · rintro ⟨⟨v, more⟩, hv, h⟩
      refine ⟨v, more, hv, ?_⟩
      dsimp only at h
      split at h
      · cases h
      · next hend =>
        cases h
        exact .inl ⟨hend, rfl⟩
      · next hcomma =>
        split at h
        · cases h
        · cases h
        · next hnext =>
          obtain ⟨⟨vs, end'⟩, hvs, heq⟩ := bind_eq_ok_iff.1 h
          cases heq
          exact .inr ⟨_, vs, hcomma, hnext ▸ hvs, rfl⟩
      · cases h
    · rintro ⟨v, more, hv, ⟨hend, rfl⟩ | ⟨next, vs, hcomma, hvs, rfl⟩⟩
      · exact ⟨(v, more), hv, by simp only [hend]⟩
      · obtain ⟨c, tail, hnext, hne⟩ := exists_cons_of_itemsBody hvs
        rw [hnext] at hvs
        refine ⟨(v, more), hv, ?_⟩
        simp only [hcomma, hnext]
        exact bind_eq_ok_iff.2 ⟨(vs, r), hvs, rfl⟩
  whole_iff cs v r := by
    rw [listBody]
    constructor
    · intro h
      split at h
      · cases h
      · next hend =>
        cases h
        exact .inl ⟨hend, rfl⟩
      · next hnext =>
        obtain ⟨⟨vs, end'⟩, hvs, heq⟩ := map_eq_ok_iff.1 h
        cases heq
        exact .inr ⟨vs, hnext ▸ hvs, rfl⟩
    · rintro (⟨hend, rfl⟩ | ⟨items, hitems, rfl⟩)
      · simp only [hend]
      · obtain ⟨c, tail, hnext, hne⟩ := exists_cons_of_itemsBody hitems
        rw [hnext] at hitems
        simp only [hnext]
        exact map_eq_ok_iff.2 ⟨(items, r), hitems, rfl⟩

theorem exists_quote_of_membersBody {item : Reader Json} {ms : Members × List Char}
    (h : membersBody item fuel cs = .ok ms) : ∃ more, cs = '"' :: more := by
  cases fuel with
  | zero => cases h
  | succ fuel =>
      rw [membersBody, bind_eq_ok_iff] at h
      obtain ⟨_, hmember, -⟩ := h
      obtain ⟨literal, _, _, _, hcs, -⟩ := memberBody_eq_ok_iff.1 hmember
      exact ⟨literal, hcs⟩

theorem encloses_object (item : Reader Json) :
    Encloses '\x7d' (memberBody item) (membersBody item) (objectBody item) .obj where
  solid := rfl
  ne_comma := by decide
  closes _ := rfl
  make_injective _ _ := Json.obj.inj
  body_zero _ _ h := nomatch h
  body_succ fuel cs members r := by
    rw [membersBody, bind_eq_ok_iff]
    constructor
    · rintro ⟨⟨m, more⟩, hm, h⟩
      refine ⟨m, more, hm, ?_⟩
      dsimp only at h
      split at h
      · cases h
      · next hend =>
        cases h
        exact .inl ⟨hend, rfl⟩
      · next hcomma =>
        obtain ⟨⟨ms, end'⟩, hms, heq⟩ := bind_eq_ok_iff.1 h
        cases heq
        exact .inr ⟨_, ms, hcomma, hms, rfl⟩
      · cases h
    · rintro ⟨m, more, hm, ⟨hend, rfl⟩ | ⟨next, ms, hcomma, hms, rfl⟩⟩
      · exact ⟨(m, more), hm, by simp only [hend]⟩
      · refine ⟨(m, more), hm, ?_⟩
        simp only [hcomma]
        exact bind_eq_ok_iff.2 ⟨(ms, r), hms, rfl⟩
  whole_iff cs v r := by
    rw [objectBody]
    constructor
    · intro h
      split at h
      · cases h
      · next hend =>
        cases h
        exact .inl ⟨hend, rfl⟩
      · next hnext =>
        obtain ⟨⟨ms, end'⟩, hms, heq⟩ := map_eq_ok_iff.1 h
        cases heq
        exact .inr ⟨ms, hnext ▸ hms, rfl⟩
    · rintro (⟨hend, rfl⟩ | ⟨members, hmembers, rfl⟩)
      · simp only [hend]
      · obtain ⟨more, hquote⟩ := exists_quote_of_membersBody hmembers
        rw [hquote] at hmembers ⊢
        exact map_eq_ok_iff.2 ⟨(members, r), hmembers, rfl⟩

/-! ### What is written -/

/-- A text is read as an element in front of whatever closes it; blanks of it may be left. -/
def Writes (elem : Reader α) (text : List Char) (a : α) : Prop :=
  ∀ rest, Closes rest → ∃ left, (∀ c ∈ left, isSpace c = true) ∧
    elem (skipSpace (text ++ rest)) = .ok (a, left ++ rest)

/-- A text is read as nothing but an element that agrees with what it is the text of. -/
def WritesOnly (elem : Reader α) (agrees : α → β → Prop) (text : List Char) (b : β) : Prop :=
  ∀ rest, Closes rest → ∀ a r, elem (skipSpace (text ++ rest)) = .ok (a, r) → r = rest ∧ agrees a b

theorem joined_cons (space text next : List Char) (texts : List (List Char)) (tail : List Char) :
    (',' :: space).intercalate (text :: next :: texts) ++ tail =
      text ++ ',' :: (space ++ ((',' :: space).intercalate (next :: texts) ++ tail)) := by
  rw [List.intercalate_cons_cons]
  simp only [List.append_assoc, List.cons_append]

theorem length_le_joined (space : List Char) (texts : List (List Char)) :
    texts.length ≤ ((',' :: space).intercalate texts).length + 1 := by
  induction texts with
  | nil => exact Nat.zero_le _
  | cons text texts ih =>
      cases texts with
      | nil => exact Nat.le_add_left 1 _
      | cons next texts =>
          have hlength := congrArg List.length (joined_cons space text next texts [])
          simp only [List.append_nil, List.length_append, List.length_cons] at hlength ih ⊢
          omega

namespace Encloses

variable (h : Encloses close elem body whole make)
include h

/-- What holds of each element that is read holds of all that are read. -/
theorem forall_mem_body {holds : α → Prop} (helem : ∀ cs a r, elem cs = .ok (a, r) → holds a)
    (hbody : body fuel cs = .ok (as, r)) : ∀ a ∈ as, holds a := by
  induction fuel generalizing cs as with
  | zero => exact absurd hbody (h.body_zero _ _)
  | succ fuel ih =>
      obtain ⟨a, more, ha, ⟨-, rfl⟩ | ⟨_, rest, -, hrest, rfl⟩⟩ := (h.body_succ _ _ _ _).1 hbody
      · exact List.forall_mem_singleton.2 (helem _ _ _ ha)
      · exact List.forall_mem_cons.2 ⟨helem _ _ _ ha, ih hrest⟩

theorem exists_of_whole (hwhole : whole cs = .ok (v, r)) : ∃ as, v = make as := by
  obtain ⟨-, rfl⟩ | ⟨as, -, rfl⟩ := (h.whole_iff _ _ _).1 hwhole
  · exact ⟨[], rfl⟩
  · exact ⟨as, rfl⟩

theorem forall_mem_whole {holds : α → Prop} (helem : ∀ cs a r, elem cs = .ok (a, r) → holds a)
    (hwhole : whole cs = .ok (make as, r)) : ∀ a ∈ as, holds a := by
  obtain ⟨-, heq⟩ | ⟨_, hbody, heq⟩ := (h.whole_iff _ _ _).1 hwhole
  · cases h.make_injective heq
    exact List.forall_mem_nil _
  · cases h.make_injective heq
    exact h.forall_mem_body helem hbody

/-- Elements are read one after the other as they are written, to the end of their container. -/
theorem body_written (rest : List Char) (hspace : ∀ c ∈ space, isSpace c = true)
    (htail : ∀ c ∈ tail, isSpace c = true) (hne : texts ≠ [])
    (htexts : List.Forall₂ (Writes elem) texts as) (hfuel : texts.length ≤ fuel) :
    body fuel (skipSpace ((',' :: space).intercalate texts ++ (tail ++ close :: rest))) =
      .ok (as, rest) := by
  induction htexts generalizing fuel with
  | nil => exact absurd rfl hne
  | @cons text a texts as ha has ih =>
      cases fuel with
      | zero => cases hfuel
      | succ fuel =>
          cases has with
          | nil =>
              obtain ⟨left, hleft, hread⟩ := ha _ (closes_append htail (h.closes rest))
              have hend : skipSpace (left ++ (tail ++ close :: rest)) = close :: rest := by
                rw [skipSpace_append hleft, skipSpace_blanks htail h.solid]
              rw [List.intercalate_singleton]
              exact (h.body_succ _ _ _ _).2 ⟨a, _, hread, .inl ⟨hend, rfl⟩⟩
          | cons ha' has =>
              have hrest := ih (List.cons_ne_nil _ _) (Nat.le_of_succ_le_succ hfuel)
              obtain ⟨left, hleft, hread⟩ := ha _ (closes_comma _)
              rw [← skipSpace_append hspace] at hrest
              rw [joined_cons]
              exact (h.body_succ _ _ _ _).2
                ⟨a, _, hread, .inr ⟨_, _, skipSpace_blanks hleft rfl _, hrest, rfl⟩⟩

theorem whole_written (rest : List Char) (hspace : ∀ c ∈ space, isSpace c = true)
    (htail : ∀ c ∈ tail, isSpace c = true) (hne : texts ≠ [])
    (htexts : List.Forall₂ (Writes elem) texts as) :
    whole (space ++ ((',' :: space).intercalate texts ++ (tail ++ close :: rest))) =
      .ok (make as, rest) := by
  have hlength := length_le_joined space texts
  refine (h.whole_iff _ _ _).2 (.inr ⟨as, ?_, rfl⟩)
  rw [skipSpace_append hspace]
  refine h.body_written rest hspace htail hne htexts ?_
  simp only [List.length_append, List.length_cons]
  omega

/-- Of elements that are written one after the other, these are read, and all of them. -/
theorem of_body_written {agrees : α → β → Prop} {write : β → List Char} {bs : List β}
    (hspace : ∀ c ∈ space, isSpace c = true) (htail : ∀ c ∈ tail, isSpace c = true) (hne : bs ≠ [])
    (hbs : ∀ b ∈ bs, WritesOnly elem agrees (write b) b)
    (hbody : body fuel (skipSpace ((',' :: space).intercalate (bs.map write) ++
      (tail ++ close :: rest))) = .ok (as, r)) : r = rest ∧ List.Forall₂ agrees as bs := by
  induction bs generalizing fuel as with
  | nil => exact absurd rfl hne
  | cons b bs ih =>
      have hb : WritesOnly elem agrees (write b) b := hbs b List.mem_cons_self
      cases fuel with
      | zero => exact absurd hbody (h.body_zero _ _)
      | succ fuel =>
          obtain ⟨a, more, ha, hmore⟩ := (h.body_succ _ _ _ _).1 hbody
          cases bs with
          | nil =>
              rw [List.map_cons, List.map_nil, List.intercalate_singleton] at ha
              obtain ⟨rfl, hagrees⟩ := hb _ (closes_append htail (h.closes rest)) a more ha
              rw [skipSpace_blanks htail h.solid] at hmore
              rcases hmore with ⟨hend, rfl⟩ | ⟨_, _, hcomma, -⟩
              · cases hend
                exact ⟨rfl, .cons hagrees .nil⟩
              · exact absurd (List.cons.inj hcomma).1 h.ne_comma
          | cons b' bs =>
              rw [List.map_cons, List.map_cons, joined_cons] at ha
              obtain ⟨rfl, hagrees⟩ := hb _ (closes_comma _) a more ha
              rw [skipSpace_of_not_isSpace rfl] at hmore
              rcases hmore with ⟨hend, -⟩ | ⟨_, as, hcomma, has, rfl⟩
              · exact absurd (List.cons.inj hend).1.symm h.ne_comma
              · cases hcomma
                rw [skipSpace_append hspace] at has
                obtain ⟨rfl, hrest⟩ := ih (List.cons_ne_nil _ _)
                  (fun b hb => hbs b (List.mem_cons_of_mem _ hb)) has
                exact ⟨rfl, .cons hagrees hrest⟩

theorem of_whole_written {agrees : α → β → Prop} {write : β → List Char} {bs : List β}
    (hspace : ∀ c ∈ space, isSpace c = true) (htail : ∀ c ∈ tail, isSpace c = true) (hne : bs ≠ [])
    (hhead : ∀ b ∈ bs, ∃ c more, write b = c :: more ∧ isSpace c = false ∧ c ≠ close)
    (hbs : ∀ b ∈ bs, WritesOnly elem agrees (write b) b)
    (hwhole : whole (space ++ ((',' :: space).intercalate (bs.map write) ++
      (tail ++ close :: rest))) = .ok (v, r)) :
    r = rest ∧ ∃ as, v = make as ∧ List.Forall₂ agrees as bs := by
  rcases (h.whole_iff _ _ _).1 hwhole with ⟨hend, -⟩ | ⟨as, hbody, rfl⟩
  · -- the first element does not begin with the end
    obtain ⟨b, bs, rfl⟩ := List.exists_cons_of_ne_nil hne
    obtain ⟨more, hmore⟩ : ∃ more, (',' :: space).intercalate ((b :: bs).map write) ++
        (tail ++ close :: rest) = write b ++ more := by
      cases bs with
      | nil => exact ⟨_, by rw [List.map_cons, List.map_nil, List.intercalate_singleton]⟩
      | cons b' bs => exact ⟨_, joined_cons _ _ _ _ _⟩
    obtain ⟨c, more', hc, hsolid, hclose⟩ := hhead b List.mem_cons_self
    rw [hmore, hc, List.cons_append, skipSpace_blanks hspace hsolid] at hend
    exact absurd (List.cons.inj hend).1 hclose
  · rw [skipSpace_append hspace] at hbody
    obtain ⟨rfl, hagrees⟩ := h.of_body_written hspace htail hne hbs hbody
    exact ⟨rfl, as, rfl, hagrees⟩

end Encloses

/-! ### What is taken off -/

/-- Whatever one reader takes off as an element, another takes off as well. -/
def Carries (f g : Reader α) (x : α) : Prop := ∀ cs r, f cs = .ok (x, r) → Taken g cs x r

theorem Carries.member {item item' : Reader Json} {m : String × Json} (h : Carries item item' m.2) :
    Carries (memberBody item) (memberBody item') m := by
  intro cs r hm
  obtain ⟨literal, name, more, next, rfl, hname, hcolon, hv, heq⟩ := memberBody_eq_ok_iff.1 hm
  obtain ⟨written, rfl, hwritten⟩ := takenTo_of_stringBody hname
  obtain ⟨space, hspace, rfl, hc⟩ := exists_of_skipSpace hcolon
  obtain ⟨front, rfl, hmore⟩ := h _ _ hv
  refine ⟨'"' :: (written ++ '"' :: (space ++ ':' :: front)), by simp, fun rest hrest => ?_⟩
  simp only [List.append_assoc, List.cons_append]
  exact memberBody_eq_ok_iff.2 ⟨_, name, _, _, rfl, hwritten _,
    skipSpace_blanks hspace hc _, hmore rest hrest, heq⟩

/-- What stands behind blanks and up to a character stands there in front of anything else. -/
theorem exists_of_skipSpace_append {front : List Char} (hc : isSpace c = false)
    (h : skipSpace cs = front ++ c :: r) :
    ∃ space, cs = space ++ (front ++ c :: r) ∧
      ∀ rest, skipSpace (space ++ (front ++ c :: rest)) = front ++ c :: rest := by
  cases front with
  | nil =>
      obtain ⟨space, hspace, hcs, -⟩ := exists_of_skipSpace h
      exact ⟨space, hcs, fun rest => skipSpace_blanks hspace hc rest⟩
  | cons d front =>
      obtain ⟨space, hspace, hcs, hd⟩ := exists_of_skipSpace h
      exact ⟨space, hcs, fun rest => skipSpace_blanks hspace hd _⟩

namespace Encloses

variable (h : Encloses close elem body whole make) (h' : Encloses close elem' body' whole' make)
include h h'

/-- Elements are read one after the other up to the end of their container, whatever follows it. -/
theorem taken_of_body (helems : ∀ a ∈ as, Carries elem elem' a) (hbody : body fuel cs = .ok (as, r)) :
    ∃ front, cs = front ++ close :: r ∧ as.length ≤ front.length + 1 ∧
      ∀ fuel' rest, as.length ≤ fuel' → body' fuel' (front ++ close :: rest) = .ok (as, rest) := by
  induction fuel generalizing cs as with
  | zero => exact absurd hbody (h.body_zero _ _)
  | succ fuel ih =>
      obtain ⟨a, more, ha, ⟨hend, rfl⟩ | ⟨next, as, hcomma, has, rfl⟩⟩ :=
        (h.body_succ _ _ _ _).1 hbody
      · obtain ⟨space, hspace, rfl, -⟩ := exists_of_skipSpace hend
        obtain ⟨front, rfl, hmore⟩ := helems a List.mem_cons_self _ _ ha
        refine ⟨front ++ space, by rw [List.append_assoc], Nat.le_add_left 1 _, ?_⟩
        intro fuel' rest hfuel
        cases fuel' with
        | zero => cases hfuel
        | succ fuel' =>
            have hclose : Closes (space ++ close :: rest) := closes_append hspace (h.closes rest)
            rw [List.append_assoc]
            exact (h'.body_succ _ _ _ _).2
              ⟨a, _, hmore _ (.inl hclose), .inl ⟨skipSpace_blanks hspace h.solid rest, rfl⟩⟩
      · obtain ⟨front', hfront', hlength, hmore'⟩ :=
          ih (fun b hb => helems b (List.mem_cons_of_mem _ hb)) has
        obtain ⟨space', rfl, hskip'⟩ := exists_of_skipSpace_append h.solid hfront'
        obtain ⟨space, hspace, rfl, -⟩ := exists_of_skipSpace hcomma
        obtain ⟨front, rfl, hmore⟩ := helems a List.mem_cons_self _ _ ha
        refine ⟨front ++ (space ++ ',' :: (space' ++ front')), by simp, ?_, ?_⟩
        · simp only [List.length_append, List.length_cons]
          omega
        · intro fuel' rest hfuel
          cases fuel' with
          | zero => cases hfuel
          | succ fuel' =>
              have hclose : Closes (space ++ ',' :: (space' ++ (front' ++ close :: rest))) :=
                closes_append hspace (closes_comma _)
              have has' : body' fuel' (skipSpace (space' ++ (front' ++ close :: rest))) =
                  .ok (as, rest) := by
                rw [hskip']
                exact hmore' fuel' rest (Nat.le_of_succ_le_succ hfuel)
              simp only [List.append_assoc, List.cons_append]
              exact (h'.body_succ _ _ _ _).2 ⟨a, _, hmore _ (.inl hclose),
                .inr ⟨_, as, skipSpace_blanks hspace rfl _, has', rfl⟩⟩

/-- **A container is read up to its bracket**, whatever follows it. -/
theorem takenTo_whole (helems : ∀ a ∈ as, Carries elem elem' a)
    (hwhole : whole cs = .ok (make as, r)) : TakenTo close whole' cs (make as) r := by
  rcases (h.whole_iff _ _ _).1 hwhole with ⟨hend, heq⟩ | ⟨_, hbody, heq⟩
  · obtain ⟨space, hspace, rfl, -⟩ := exists_of_skipSpace hend
    exact ⟨space, rfl, fun rest =>
      (h'.whole_iff _ _ _).2 (.inl ⟨skipSpace_blanks hspace h.solid rest, heq⟩)⟩
  · cases h.make_injective heq
    obtain ⟨front, hfront, hlength, hmore⟩ := h.taken_of_body h' helems hbody
    obtain ⟨space, rfl, hskip⟩ := exists_of_skipSpace_append h.solid hfront
    refine ⟨space ++ front, by rw [List.append_assoc], fun rest => ?_⟩
    have hfuel : as.length ≤ (space ++ (front ++ close :: rest)).length := by
      simp only [List.length_append, List.length_cons]
      omega
    rw [List.append_assoc]
    refine (h'.whole_iff _ _ _).2 (.inr ⟨as, ?_, rfl⟩)
    rw [hskip]
    exact hmore _ rest hfuel

end Encloses

/-! ### Values -/

theorem exists_inner (depth : Nat) :
    ∃ inner, value depth = valueWith inner ∧ ∀ item ∈ inner, ∃ k, depth = k + 1 ∧ item = value k := by
  cases depth with
  | zero => exact ⟨none, rfl, fun _ h => nomatch h⟩
  | succ k =>
      refine ⟨some (value k), rfl, fun item h => ⟨k, rfl, ?_⟩⟩
      exact (Option.some.inj h).symm

/-- **Behind blanks, a value is a list or an object**, with one level less for its parts, or it has no
parts and is read alike within any number of levels. -/
theorem value_cases (h : value depth cs = .ok (v, r)) :
    ∃ space tail, (∀ c ∈ space, isSpace c = true) ∧
      ((∃ k items, depth = k + 1 ∧ cs = space ++ '[' :: tail ∧ v = .arr items ∧
          listBody (value k) tail = .ok (v, r)) ∨
        (∃ k members, depth = k + 1 ∧ cs = space ++ '\x7b' :: tail ∧ v = .obj members ∧
          objectBody (value k) tail = .ok (v, r)) ∨
        ∃ c, cs = space ++ c :: tail ∧ Nests (fun _ => True) 0 v ∧
          ∀ k, Taken (value k) (c :: tail) v r) := by
  obtain ⟨c, tail, hcs, -⟩ := exists_cons_of_value h
  obtain ⟨space, hspace, rfl, hc⟩ := exists_of_skipSpace hcs
  obtain ⟨inner, hinner, hparts⟩ := exists_inner depth
  rw [value_append hspace, hinner] at h
  refine ⟨space, tail, hspace, ?_⟩
  rcases valueWith_cases hc h with ⟨item, hitem, rfl, h⟩ | ⟨item, hitem, rfl, h⟩ | ⟨hleaf, htaken⟩
  · obtain ⟨k, rfl, rfl⟩ := hparts item hitem
    obtain ⟨items, hitems⟩ := (encloses_list k).exists_of_whole h
    exact .inl ⟨k, items, rfl, rfl, hitems, h⟩
  · obtain ⟨k, rfl, rfl⟩ := hparts item hitem
    obtain ⟨members, hmembers⟩ := (encloses_object (value k)).exists_of_whole h
    exact .inr (.inl ⟨k, members, rfl, rfl, hmembers, h⟩)
  · refine .inr (.inr ⟨c, rfl, hleaf, fun k => ?_⟩)
    obtain ⟨inner', hk⟩ := value_eq k
    exact hk ▸ htaken inner'

end StyleContract.Json
