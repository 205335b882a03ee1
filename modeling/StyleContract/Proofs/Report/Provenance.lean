import StyleContract.Proofs.Contract.Telling
import StyleContract.Proofs.Keyed
import StyleContract.Proofs.Report.Guide

/-!
# Proofs — Report — Provenance

The provenance map of a guide, read back from its text. A block of JSON is found by lines alone: it is
what stands behind the last line that opens one, up to the next line of three ticks (`lastBlock?_eq`). The
texts of a contract come before it, so a line of theirs that opens a block is never the last one; and inside
the map they are quoted, so that each of its lines starts with a blank or a bracket, and no line with a
tick (`starts_of_mem_rawLines`).

**What is found is read as the map** of the ids of all rules to their evidence (`provenance_render`).
-/

namespace StyleContract

namespace Text

variable {mark s line : String}

/-! ### Lines as they stand -/

/-- What stands between the line feeds of a text. -/
def rawLines (s : String) : List String := (splitOn '\n' s.toList).map String.ofList

theorem rawLines_append_feed (s t : String) : rawLines (s ++ "\n" ++ t) = rawLines s ++ rawLines t := by
  rw [rawLines, splitOn_append_feed, List.map_append]
  rfl

theorem rawLines_of_flat (h : Flat s) : rawLines s = [s] := by
  rw [rawLines, splitOn_of_not_mem h, List.map_singleton, String.ofList_toList]

theorem rawLines_printed (texts : List String) :
    rawLines (printed texts) = texts.flatMap rawLines ++ [""] := by
  induction texts with
  | nil => rfl
  | cons s texts ih =>
      rw [printed_cons, rawLines_append_feed, ih, List.flatMap_cons, List.append_assoc]

theorem intercalate_splitOn (c : Char) (cs : List Char) : [c].intercalate (splitOn c cs) = cs := by
  induction cs with
  | nil => rfl
  | cons x xs ih =>
      obtain ⟨part, parts, hparts⟩ := List.exists_cons_of_ne_nil (splitOn_ne_nil c xs)
      rw [splitOn]
      rw [hparts] at ih ⊢
      split
      · next hx => rw [List.intercalate_cons_cons, ih, hx]; rfl
      · cases parts with
        | nil =>
            rw [List.intercalate_singleton] at ih
            rw [List.intercalate_singleton, ih]
        | cons next rest =>
            rw [List.intercalate_cons_cons] at ih
            rw [List.intercalate_cons_cons, List.cons_append, List.cons_append, ih]

/-- A text is its lines with line feeds between them. -/
theorem intercalate_rawLines (s : String) : "\n".intercalate (rawLines s) = s := by
  refine String.toList_injective ?_
  rw [String.toList_intercalate, rawLines, List.map_map]
  simpa [Function.comp_def] using intercalate_splitOn '\n' s.toList

/-- No line starts with a mark that neither the text starts with nor what follows a line feed. -/
theorem starts_of_mem_rawLines (hmark : Flat mark) (hfirst : starts mark s = false)
    (hlater : ¬ '\n' :: mark.toList <:+: s.toList) (h : line ∈ rawLines s) :
    starts mark line = false := by
  obtain ⟨part, hpart, rfl⟩ := List.mem_map.1 h
  rw [Bool.eq_false_iff, ne_eq, starts_iff, String.toList_ofList]
  intro hprefix
  obtain ⟨head, tail, hparts, hhead⟩ := exists_splitOn_cons hmark s.toList
  rw [hparts] at hpart
  rcases List.mem_cons.1 hpart with rfl | hpart
  · rw [Bool.eq_false_iff, ne_eq, starts_iff] at hfirst
    exact hfirst (hhead.1 hprefix)
  · have hmem : part ∈ (splitOn '\n' s.toList).tail := by
      rw [hparts]
      exact hpart
    exact hlater ((exists_mem_tail_splitOn_iff hmark).1 ⟨part, hmem, hprefix⟩)

end Text

namespace Guide

open Document
open Text (Flat rawLines starts)

variable {c : Contract} {s source : String} {before body after : List String}

/-! ### The last block -/

/-- The line that opens a block of JSON. -/
def opening : String := ticks ++ "json"

/-- The text between the last line that opens a block of JSON and the next one that closes a block. -/
def lastBlock? (s : String) : Option String :=
  let behind := ((rawLines s).reverse.takeWhile (· != opening)).reverse
  if opening ∈ rawLines s ∧ ticks ∈ behind then
    some ("\n".intercalate (behind.takeWhile (· != ticks)))
  else none

theorem lastBlock?_eq (hs : rawLines s = before ++ opening :: (body ++ ticks :: after))
    (hopening : opening ∉ body ++ ticks :: after) (hticks : ticks ∉ body) :
    lastBlock? s = some ("\n".intercalate body) := by
  have hrest : ∀ line ∈ (body ++ ticks :: after).reverse, (line != opening) = true := by
    intro line hline
    rw [bne_iff_ne]
    rintro rfl
    exact hopening (List.mem_reverse.1 hline)
  have hbehind : (((rawLines s).reverse.takeWhile (· != opening)).reverse) = body ++ ticks :: after := by
    rw [hs, List.reverse_append, List.reverse_cons, List.append_assoc,
      List.takeWhile_append_of_pos hrest]
    simp
  have hbody : (body ++ ticks :: after).takeWhile (· != ticks) = body := by
    have hinner : ∀ line ∈ body, (line != ticks) = true := by
      intro line hline
      rw [bne_iff_ne]
      rintro rfl
      exact hticks hline
    rw [List.takeWhile_append_of_pos hinner]
    simp
  unfold lastBlock?
  simp only [hbehind, hbody]
  exact if_pos ⟨by rw [hs]; simp, by simp⟩

/-- No line of a printed object starts with a tick. -/
theorem starts_tick_of_mem_pretty {members : Json.Members} {line : String}
    (h : line ∈ rawLines (Json.obj members).pretty) : starts "\x60" line = false := by
  obtain ⟨cs, hcs⟩ : ∃ cs, (Json.obj members).pretty.toList = '\x7b' :: cs :=
    Json.exists_cons_block '\x7b' '\x7d' _
  refine Text.starts_of_mem_rawLines (by decide) ?_ ?_ h
  · rw [starts, hcs]
    rfl
  · rintro ⟨pre, post, heq⟩
    have hhead := Json.indented_pretty (.obj members) pre ('\x60' :: post) (by rw [← heq]; simp)
    cases hhead

theorem ne_of_starts_tick {line : String} (h : starts "\x60" line = false) :
    line ≠ opening ∧ line ≠ ticks := by
  constructor
  · rintro rfl
    exact absurd h (by decide)
  · rintro rfl
    exact absurd h (by decide)

theorem starts_tick_footer (c : Contract) (source : String) : starts "\x60" (footer c source) = false := by
  unfold footer
  rw [starts, String.append_assoc, String.append_assoc, String.toList_append]
  rfl

/-- **The last block of a guide is its map**, whatever the texts of the contract are. -/
theorem lastBlock?_render (c : Contract) (hsource : Flat source) :
    lastBlock? (render c source) = some (provenanceJson c).pretty := by
  have hbody : ∀ line ∈ rawLines (provenanceJson c).pretty, line ≠ opening ∧ line ≠ ticks :=
    fun line hline => ne_of_starts_tick (starts_tick_of_mem_pretty hline)
  have hfooter : rawLines (footer c source) = [footer c source] :=
    Text.rawLines_of_flat (flat_footer c hsource)
  have hopening : rawLines opening = [opening] ∧ rawLines ticks = [ticks] ∧ rawLines "" = [""] := by
    decide
  have hlines : ∃ before, rawLines (render c source) = before ++ opening ::
      (rawLines (provenanceJson c).pretty ++ ticks :: ["", footer c source, ""]) := by
    refine ⟨(["# AGENTS.md", ""] ++ contextLines c ++ postureLines ++ enforcedLines (enforced c) ++
      candidateLines (candidates c) ++ verificationLines (enforced c) ++
      ["## Provenance Map", ""]).flatMap rawLines, ?_⟩
    rw [render_eq, Text.rawLines_printed, guideLines, provenanceLines, codeLines]
    rw [← opening]
    simp only [List.flatMap_append, List.flatMap_cons, List.flatMap_nil, hopening, hfooter,
      List.append_assoc, List.append_nil, List.cons_append, List.nil_append]
  obtain ⟨before, hlines⟩ := hlines
  rw [lastBlock?_eq hlines ?_ fun hmem => (hbody _ hmem).2 rfl, Text.intercalate_rawLines]
  have hother : opening ≠ ticks ∧ opening ≠ "" := by decide
  simp only [List.mem_append, List.mem_cons, List.not_mem_nil, or_false, not_or]
  exact ⟨fun hmem => (hbody _ hmem).1 rfl, hother.1, hother.2,
    (ne_of_starts_tick (starts_tick_footer c source)).1.symm, hother.2⟩

/-! ### The map -/

section

variable {V : Type} {r : Reading V} {Says : V → Json → Prop} {v : V}

/-- Reads a map of names to evidence. -/
def readProvenance (r : Reading V) (v : V) : Fit (Keyed (List Evidence)) := do
  let entries ← r.entries v
  let members ← entries.mapM fun (name, v) => (r.list (Evidence.read r) v).map fun es => (name, es)
  .ok (.ofList members)

theorem readProvenance_of_says (hr : Faithful r Says) (h : Says v (provenanceJson c)) :
    readProvenance r v = .ok (provenance c) := by
  obtain ⟨es, hes, hsays⟩ := hr.entries h
  have hmap : es.mapM (fun e => (r.list (Evidence.read r) e.2).map fun es => (e.1, es)) =
      .ok ((provenance c).entries.map id) := by
    refine mapM_eq_ok_of_forall₂ (forall₂_map_right hsays) fun e _ d hd => ?_
    have hlist : r.list (Evidence.read r) d.2 = .ok e.2 :=
      hr.list_ok hd.2 fun _ _ _ => Evidence.read_of_says hr
    rw [hlist, hd.1]
    rfl
  rw [readProvenance, hes]
  dsimp only [bind, Except.bind]
  rw [hmap]
  dsimp only
  rw [List.map_id, Keyed.ofList_entries]

end

theorem nests_provenanceJson (c : Contract) :
    Json.Nests Json.Number.ReadsBack Json.maxDepth (provenanceJson c) := by
  refine .obj fun m hm => ?_
  obtain ⟨e, -, rfl⟩ := List.mem_map.1 hm
  refine .arr fun v hv => ?_
  obtain ⟨evidence, -, rfl⟩ := List.mem_map.1 hv
  exact evidence.nests_toJson fun _ => Json.readsBack_natural

theorem readRaw_provenanceJson (c : Contract) :
    Json.readRaw (provenanceJson c).pretty = .ok (provenanceJson c) := by
  refine Json.readRaw_eq_ok_iff.2 ⟨[], List.forall_mem_nil _, ?_⟩
  have hread := (nests_provenanceJson c).readAs 0 [] rfl
  rwa [List.append_nil] at hread

/-- Ids that are all different lose no evidence. -/
theorem get?_provenance_eq_some_iff (hids : (c.rules.map Rule.id).Nodup) {id : String}
    {evidence : List Evidence} :
    (provenance c).get? id = some evidence ↔ ∃ r ∈ c.rules, r.id = id ∧ r.evidence = evidence := by
  have hnames : ((c.rules.map fun r => (r.id, r.evidence)).map Prod.fst).Nodup := by
    rwa [List.map_map]
  rw [provenance, Keyed.get?_ofList_eq_some_iff hnames, List.mem_map]
  simp only [Prod.mk.injEq]

/-- **The provenance map can be read back.** In the text of a guide, the last block of JSON is a document,
and it gives the evidence of each rule by its id, and nothing else. -/
theorem provenance_render {c : Contract} {source : String} (hids : (c.rules.map Rule.id).Nodup)
    (hsource : Flat source) :
    ∃ text document map, lastBlock? (render c source) = some text ∧
      Json.readRaw text = .ok document ∧ readProvenance json document = .ok map ∧
      ∀ id evidence, map.get? id = some evidence ↔
        ∃ r ∈ c.rules, r.id = id ∧ r.evidence = evidence :=
  ⟨_, _, _, lastBlock?_render c hsource, readRaw_provenanceJson c,
    readProvenance_of_says faithful_json rfl, fun _ _ => get?_provenance_eq_some_iff hids⟩

/-- A text that is a block of JSON of its own. -/
def blockText : String := "\n" ++ opening ++ "\n\x7b\x7d\n" ++ ticks ++ "\n"

/-- Evidence in a file with such a name. -/
def blockEvidence : Evidence := ⟨blockText, ⟨1, 2⟩, "1e3"⟩

/-- A rule all of whose texts are such blocks. -/
def blockRule (id : String) (evidence : List Evidence) : Rule where
  id := id ++ blockText
  title := blockText
  statement := blockText
  scope := [blockText]
  severity := .warn
  confidence := 1.0
  evidence := evidence

def blockContract : Contract where
  schemaVersion := "1.0"
  repo := ⟨some blockText, blockText⟩
  generatedAt := ⟨0, 0⟩
  rules := [blockRule "B" [blockEvidence, blockEvidence], blockRule "A" []]

theorem provenance_render_blocks :
    (blockContract.rules.map Rule.id).Nodup ∧ Flat "c.yaml" ∧
      ∃ text document map, lastBlock? (render blockContract "c.yaml") = some text ∧
        Json.readRaw text = .ok document ∧ readProvenance json document = .ok map ∧
        map.get? ("A" ++ blockText) = some [] ∧
        map.get? ("B" ++ blockText) = some [blockEvidence, blockEvidence] ∧ map.get? "A" = none := by
  have hids : (blockContract.rules.map Rule.id).Nodup := by decide
  have hsource : Flat "c.yaml" := by decide
  obtain ⟨text, document, map, htext, hdocument, hmap, hiff⟩ := provenance_render hids hsource
  refine ⟨hids, hsource, text, document, map, htext, hdocument, hmap,
    (hiff _ _).2 ⟨_, List.mem_cons_of_mem _ List.mem_cons_self, rfl, rfl⟩,
    (hiff _ _).2 ⟨_, List.mem_cons_self, rfl, rfl⟩, ?_⟩
  refine Option.eq_none_iff_forall_ne_some.2 fun evidence hevidence => ?_
  obtain ⟨r, hr, hid, -⟩ := (hiff _ _).1 hevidence
  have hothers : ∀ r ∈ blockContract.rules, r.id ≠ "A" := by decide
  exact hothers r hr hid

end Guide

end StyleContract
