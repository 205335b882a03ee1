import StyleContract.Oracle.Candidate
import StyleContract.Proofs.Json.Depth
import StyleContract.Proofs.Text.Spans

/-!
# Proofs — Oracle — Reply

The wrappings of a reply that are taken off it. Inside a code fence **a reply says what it says bare**
(`body_fenced`), whatever backticks and blanks it holds, as long as it does not begin with a fence of its
own. A list is understood as the object is that has it as its last member `rules`
(`ofReply_eq_of_rules`), and the object is read wherever the list and its other members are, if it does not
nest too deep.

The other members do have to be read: a number that no float holds is refused wherever it stands
(`ofReply_out_of_range`).
-/

namespace StyleContract.Candidate
open Json (Members MemberText objectText readRaw Nests maxDepth)

/-! ### Fences -/

section

variable {before info reply after : String}

/-- A reply inside a code fence: the fence with a remark on one line, the reply, and the fence again. -/
def fenced (before info reply after : String) : String :=
  before ++ String.ofList fence ++ info ++ "\n" ++ reply ++ "\n" ++ String.ofList fence ++ after

theorem withoutEnd_append (tail cs : List Char) : withoutEnd tail (cs ++ tail) = cs := by
  rw [withoutEnd, if_pos (List.isSuffixOf_iff_suffix.2 (List.suffix_append cs tail))]
  simp

theorem body_of_not_fence (h : ¬ fence <+: (Text.trim reply).toList) : body reply = Text.trim reply := by
  rw [Text.trim, String.toList_ofList] at h
  rw [body, if_neg (by rwa [List.isPrefixOf_iff_prefix])]
  rfl

theorem body_append_blank (hbefore : ∀ c ∈ before.toList, Text.isBlank c = true)
    (hafter : ∀ c ∈ after.toList, Text.isBlank c = true) :
    body (before ++ reply ++ after) = body reply := by
  have htrim : Text.trimChars Text.isBlank (before ++ reply ++ after).toList =
      Text.trimChars Text.isBlank reply.toList := by
    rw [String.toList_append, String.toList_append, List.append_assoc,
      Text.trimChars_append hbefore hafter]
  rw [body, body, htrim]

/-- What is between two fences is what stands behind the first line, trimmed. -/
theorem body_fence (hinfo : '\n' ∉ info.toList) :
    body (String.ofList fence ++ info ++ "\n" ++ reply ++ "\n" ++ String.ofList fence) =
      Text.trim reply := by
  let inside := reply.toList ++ ['\n']
  let cs := fence ++ (info.toList ++ '\n' :: (inside ++ fence))
  have hcs : (String.ofList fence ++ info ++ "\n" ++ reply ++ "\n" ++
      String.ofList fence).toList = cs := by
    simp [cs, inside, fence]
  -- the text begins and ends with a backtick, and so does what is behind the first line end
  have htrim : Text.trimChars Text.isBlank cs = cs := by
    have hends : cs = '\x60' :: (['\x60', '\x60'] ++ (info.toList ++ '\n' :: (inside ++
        ['\x60', '\x60'])) ++ ['\x60']) := by simp [cs, fence]
    rw [hends]
    exact Text.trimChars_of_ends rfl rfl
  have hremark : ∀ c ∈ info.toList, (c != '\n') = true := fun c hc => by
    simpa using fun heq : c = '\n' => hinfo (heq ▸ hc)
  have hline : (cs.drop 3).dropWhile (· != '\n') = '\n' :: (inside ++ fence) :=
    Text.dropWhile_append_of_head hremark (by simp)
  have hend : Text.dropTailWhile Text.isBlank (inside ++ fence) = inside ++ fence := by
    have hlast : inside ++ fence = (inside ++ ['\x60', '\x60']) ++ ['\x60'] := by simp [fence]
    rw [hlast]
    exact Text.dropTailWhile_concat rfl
  have hreply : Text.trimChars Text.isBlank ([] ++ inside) = Text.trimChars Text.isBlank reply.toList :=
    Text.trimChars_append (List.forall_mem_nil _) (List.forall_mem_singleton.2 rfl)
  have hfence : fence.isPrefixOf cs = true := List.isPrefixOf_iff_prefix.2 (List.prefix_append _ _)
  rw [body, hcs, htrim]
  simp only [hfence, if_true, hline, List.drop_succ_cons, List.drop_zero, hend, withoutEnd_append]
  exact congrArg String.ofList hreply

/-- **In a code fence a reply says what it says bare.** -/
theorem body_fenced (hbefore : ∀ c ∈ before.toList, Text.isBlank c = true)
    (hafter : ∀ c ∈ after.toList, Text.isBlank c = true) (hinfo : '\n' ∉ info.toList)
    (hreply : ¬ fence <+: (Text.trim reply).toList) :
    body (fenced before info reply after) = body reply := by
  have hfenced : fenced before info reply after = before ++
      (String.ofList fence ++ info ++ "\n" ++ reply ++ "\n" ++ String.ofList fence) ++ after := by
    simp only [fenced, String.append_assoc]
  rw [hfenced, body_append_blank hbefore hafter, body_fence hinfo, body_of_not_fence hreply]

end

/-! ### Objects -/

section

variable {s : String} {v : Json}

theorem ofReply_congr {reply other : String} (h : body reply = body other) :
    ofReply reply = ofReply other := by
  rw [ofReply, ofReply, h]

theorem isBlank_of_isSpace {c : Char} (h : Json.isSpace c = true) : Text.isBlank c = true := by
  have hsigns : c = ' ' ∨ c = '\n' ∨ c = '\t' ∨ c = '\r' := by
    simpa [Json.isSpace, or_assoc] using h
  rcases hsigns with rfl | rfl | rfl | rfl <;> rfl

/-- A text of a list or an object is a reply with that document. -/
theorem ofReply_of_readRaw (h : readRaw s = .ok v)
    (hv : (∃ items, v = .arr items) ∨ ∃ members, v = .obj members) :
    ofReply s = ofDocument v.merged := by
  obtain ⟨space, c, front, d, space', hs, hspace, hspace', hends, hread⟩ := Json.exists_brackets h hv
  have hblank : Text.isBlank c = false ∧ Text.isBlank d = false ∧ c ≠ '\x60' := by
    rcases hends with ⟨rfl, rfl⟩ | ⟨rfl, rfl⟩ <;> decide
  have htrim : Text.trim s = String.ofList (c :: (front ++ [d])) := by
    rw [Text.trim, hs, Text.trimChars_append (fun c hc => isBlank_of_isSpace (hspace c hc))
      (fun c hc => isBlank_of_isSpace (hspace' c hc)), Text.trimChars_of_ends hblank.1 hblank.2.1]
  have hbody : body s = String.ofList (c :: (front ++ [d])) := by
    rw [← htrim]
    refine body_of_not_fence ?_
    rw [htrim, String.toList_ofList]
    exact fun hfence => hblank.2.2 (List.cons_prefix_cons.1 hfence).1.symm
  have hne : String.ofList (c :: (front ++ [d])) ≠ "" := by simp
  rw [ofReply, hbody, if_neg hne, Json.read, hread]
  rfl

/-- **A list is understood as an object that has it as its last member** with the name rules. -/
theorem ofReply_eq_of_rules {object list : String} {front back : Members} {items : List Json}
    (hobject : readRaw object = .ok (.obj (front ++ ("rules", .arr items) :: back)))
    (hlast : "rules" ∉ Members.names back) (hlist : readRaw list = .ok (.arr items)) :
    ofReply object = ofReply list := by
  have hget : Members.get? "rules"
      (Members.merged (Json.mergedMembers (front ++ ("rules", .arr items) :: back))) =
        some (.arr (Json.mergedItems items)) := by
    rw [Json.mergedMembers_eq, List.map_append, List.map_cons]
    refine Members.get?_merged_last ?_
    rwa [← Json.mergedMembers_eq, Json.names_mergedMembers]
  rw [ofReply_of_readRaw hobject (.inr ⟨_, rfl⟩), ofReply_of_readRaw hlist (.inl ⟨_, rfl⟩), Json.merged,
    Json.merged, ofDocument, ofDocument, hget]

/-- **The wrappings of a reply say what it says bare.** A reply in a code fence is understood as it is
without, blanks around either, if it does not begin with a fence itself. An object with a list as its
last member of the name rules is understood as the list: the list and the object are texts with these
values, or the list's text stands in the object's, among members that are read as well, and the object
does not nest deeper than texts may. -/
theorem wrappings_agree :
    (∀ before info reply after : String, (∀ c ∈ before.toList, Text.isBlank c = true) →
        (∀ c ∈ after.toList, Text.isBlank c = true) → '\n' ∉ info.toList →
        ¬ fence <+: (Text.trim reply).toList →
        ofReply (fenced before info reply after) = ofReply reply) ∧
      (∀ (object list : String) (front back : Members) (items : List Json),
        readRaw object = .ok (.obj (front ++ ("rules", .arr items) :: back)) →
        "rules" ∉ Members.names back → readRaw list = .ok (.arr items) →
        ofReply object = ofReply list) ∧
      ∀ (before after : String) (ts ts' : List MemberText) (t : MemberText) (front back : Members)
        (items : List Json), (∀ c ∈ before.toList, Text.isBlank c = true) →
        (∀ c ∈ after.toList, Text.isBlank c = true) → List.Forall₂ MemberText.Reads ts front →
        t.Reads ("rules", .arr items) → List.Forall₂ MemberText.Reads ts' back →
        "rules" ∉ Members.names back →
        Nests (fun _ => True) maxDepth (.obj (front ++ ("rules", .arr items) :: back)) →
        ofReply (before ++ objectText (ts ++ t :: ts') ++ after) = ofReply t.text := by
  refine ⟨?_, fun object list front back items => ofReply_eq_of_rules, ?_⟩
  · intro before info reply after hbefore hafter hinfo hreply
    exact ofReply_congr (body_fenced hbefore hafter hinfo hreply)
  · intro before after ts ts' t front back items hbefore hafter hts ht hts' hlast hdepth
    have hmembers : List.Forall₂ MemberText.Reads (ts ++ t :: ts')
        (front ++ ("rules", .arr items) :: back) := List.rel_append hts (.cons ht hts')
    have hobject := Json.readRaw_objectText hmembers (by simp) hdepth
    rw [ofReply_congr (body_append_blank hbefore hafter)]
    exact ofReply_eq_of_rules hobject hlast ht.value

/-- A list with a fence in it. -/
def fenceList : String := "[\"\x60\x60\x60\"]"

def emptyRules : MemberText := ⟨"", "rules", "", "[]"⟩

/-- The list as a member whose name is written with an escape. -/
def fenceRules : MemberText := ⟨" ", "rul\\u0065s", "\t", fenceList⟩

theorem reads_emptyRules : emptyRules.Reads ("rules", .arr []) where
  before := List.forall_mem_nil _
  between := List.forall_mem_nil _
  name := Json.stringBody_escaped "rules".toList
  value := Document.toOption_eq_some_iff.1 (by decide)

theorem reads_fenceRules : fenceRules.Reads ("rules", .arr [.str "\x60\x60\x60"]) where
  before := List.forall_mem_singleton.2 rfl
  between := List.forall_mem_singleton.2 rfl
  name := Document.toOption_eq_some_iff.1 (by decide +kernel)
  value := Document.toOption_eq_some_iff.1 (by decide +kernel)

theorem wrappings_of_fenceList :
    ¬ fence <+: (Text.trim fenceList).toList ∧
      ofReply (fenced "\n" "json" fenceList " ") = ofReply fenceList ∧
      readRaw (objectText [emptyRules, fenceRules]) =
        .ok (.obj [("rules", .arr []), ("rules", .arr [.str "\x60\x60\x60"])]) ∧
      ofReply (objectText [emptyRules, fenceRules]) = ofReply fenceList ∧
      ofReply ("\n" ++ objectText [emptyRules, fenceRules] ++ " ") = ofReply fenceList := by
  have hfence : ¬ fence <+: (Text.trim fenceList).toList := by decide
  have hdepth : Nests (fun _ => True) maxDepth
      (.obj [("rules", .arr []), ("rules", .arr [.str "\x60\x60\x60"])]) :=
    .obj (List.forall_mem_cons.2 ⟨.arr (List.forall_mem_nil _),
      List.forall_mem_singleton.2 (.arr (List.forall_mem_singleton.2 (.str _)))⟩)
  have hobject := Json.readRaw_objectText (.cons reads_emptyRules (.cons reads_fenceRules .nil))
    (List.cons_ne_nil _ _) hdepth
  obtain ⟨hfenced, hvalues, htexts⟩ := wrappings_agree
  refine ⟨hfence, ?_, hobject, ?_, ?_⟩
  · exact hfenced "\n" "json" fenceList " " (List.forall_mem_singleton.2 rfl)
      (List.forall_mem_singleton.2 rfl) (by decide) hfence
  · exact hvalues _ fenceList [("rules", .arr [])] [] _ hobject List.not_mem_nil reads_fenceRules.value
  · exact htexts "\n" " " [emptyRules] [] fenceRules [("rules", .arr [])] [] _
      (List.forall_mem_singleton.2 rfl) (List.forall_mem_singleton.2 rfl)
      (.cons reads_emptyRules .nil) reads_fenceRules .nil List.not_mem_nil hdepth

/-- A member that no float holds, though it is a number as JSON writes them. -/
def hugeMember : MemberText := ⟨"", "estimate", "", "1e400"⟩

/-- **The other members have to be read as well**: an object with a number beyond the range of a float is
refused, and the list that it has is not. -/
theorem ofReply_out_of_range :
    objectText [hugeMember, emptyRules] = "\x7b\"estimate\":1e400,\"rules\":[]\x7d" ∧
      emptyRules.text = "[]" ∧ ofReply "[]" = .ok [] ∧
      ofReply (objectText [hugeMember, emptyRules]) =
        .error (.malformedResponse "not JSON: malformed text") := by
  refine ⟨by decide, rfl, by decide +kernel, by decide +kernel⟩

end

end StyleContract.Candidate
