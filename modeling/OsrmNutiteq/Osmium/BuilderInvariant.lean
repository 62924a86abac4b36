import OsrmNutiteq.Osmium.XmlParser

/-! # Which builders are alive in each context

Outside an object no builder is set; inside an object of kind `t` its object builder is set,
with at most one sub-list builder that has it as parent. So `commit()` never runs with a
builder alive.
-/
namespace OsrmNutiteq.Osmium
open Xml

def ListKind.AllowedUnder : ListKind → ItemType → Prop
  | .tags, _ => True
  | .wayNodes, t => t = .way
  | .members, t => t = .relation

namespace Parser

structure NoBuilders (p : Parser) : Prop where
  object : ∀ u, p.objectBuilder u = false
  sub : ∀ k, p.subBuilder k = none

/-- The builders while an object of kind `t` is open. -/
structure BuildersUnder (p : Parser) (t : ItemType) : Prop where
  object : ∀ u, p.objectBuilder u = decide (u = t)
  sub : ∀ k b, p.subBuilder k = some b → b.parent = some t ∧ k.AllowedUnder t
  alone : ∀ k j, (p.subBuilder k).isSome → (p.subBuilder j).isSome → k = j

/-- The builder invariant, by context. -/
def BuildersValid (p : Parser) : Prop :=
  match p.context with
  | .node => p.BuildersUnder .node
  | .way => p.BuildersUnder .way
  | .relation => p.BuildersUnder .relation
  | .changeset => p.BuildersUnder .changeset
  | .inObject => ∃ t : ItemType, p.lastContext = t.context ∧ p.BuildersUnder t
  | _ => p.NoBuilders

theorem buildersValid_of_context {p : Parser} {t : ItemType} (hc : p.context = t.context)
    (h : p.BuildersUnder t) : p.BuildersValid := by
  cases t <;> simp only [BuildersValid, hc, ItemType.context] <;> exact h

theorem BuildersValid.under {p : Parser} {t : ItemType} (h : p.BuildersValid)
    (hc : p.context = t.context) : p.BuildersUnder t := by
  cases t <;> simpa only [BuildersValid, hc, ItemType.context] using h

theorem buildersValid_of_noBuilders {p : Parser}
    (hc : p.context ∈ [.root, .top, .ignoredNode, .ignoredWay, .ignoredRelation, .ignoredChangeset])
    (h : p.NoBuilders) : p.BuildersValid := by
  simp only [List.mem_cons, List.mem_singleton, List.not_mem_nil, or_false] at hc
  unfold BuildersValid
  rcases hc with hc | hc | hc | hc | hc | hc <;> simp only [hc] <;> exact h

theorem init_noBuilders (readTypes : Nat) : (init readTypes).NoBuilders :=
  ⟨fun u => by cases u <;> rfl, fun k => by cases k <;> rfl⟩

/-! ## What each operation does to the builders -/

structure SameBuilders (p q : Parser) : Prop where
  object : ∀ u, q.objectBuilder u = p.objectBuilder u
  sub : ∀ k, q.subBuilder k = p.subBuilder k

theorem NoBuilders.of_same {p q : Parser} (h : p.NoBuilders) (hs : SameBuilders p q) :
    q.NoBuilders :=
  ⟨fun u => (hs.object u).trans (h.object u), fun k => (hs.sub k).trans (h.sub k)⟩

theorem BuildersUnder.of_same {p q : Parser} {t : ItemType} (h : p.BuildersUnder t)
    (hs : SameBuilders p q) : q.BuildersUnder t :=
  ⟨fun u => (hs.object u).trans (h.object u), fun k b hb => h.sub k b ((hs.sub k).symm.trans hb),
    fun k j hk hj => h.alone k j (hs.sub k ▸ hk) (hs.sub j ▸ hj)⟩

theorem sameBuilders_mk (p : Parser) (c l : Context) (d : Bool) (h : Header) (b : Buffer)
    (q : List Buffer) (hd : Bool) :
    SameBuilders p ⟨c, l, d, h, b, p.nodeBuilder, p.wayBuilder, p.relationBuilder,
      p.changesetBuilder, p.tlBuilder, p.wnlBuilder, p.rmlBuilder, q, p.readTypes, hd⟩ :=
  ⟨fun u => by cases u <;> rfl, fun k => by cases k <;> rfl⟩

theorem sameBuilders_flushBuffer (needsFlush : Buffer → Bool) (p : Parser) :
    SameBuilders p (p.flushBuffer needsFlush) := by
  unfold flushBuffer
  split
  · exact sameBuilders_mk p _ _ _ _ _ _ _
  · exact ⟨fun _ => rfl, fun _ => rfl⟩

theorem sameBuilders_commitObject (needsFlush : Buffer → Bool) (p : Parser) :
    SameBuilders p (p.commitObject needsFlush) :=
  have h := sameBuilders_flushBuffer needsFlush { p with buffer := p.buffer.commit, context := .top }
  ⟨fun u => by cases u <;> exact h.object _, fun k => by cases k <;> exact h.sub _⟩

theorem subBuilder_appendToList (p : Parser) (k : ListKind) (par : Option ItemType)
    (es : List Entry) (j : ListKind) :
    (p.appendToList k par es).subBuilder j =
      if j = k then some ((p.subBuilder k).getD ⟨par⟩) else p.subBuilder j := by
  unfold appendToList
  cases h : p.subBuilder k <;> cases k <;> cases j <;> simp_all [subBuilder, setSubBuilder]

theorem objectBuilder_appendToList (p : Parser) (k : ListKind) (par : Option ItemType)
    (es : List Entry) (u : ItemType) :
    (p.appendToList k par es).objectBuilder u = p.objectBuilder u := by
  unfold appendToList
  cases h : p.subBuilder k <;> cases k <;> cases u <;> simp_all [objectBuilder, setSubBuilder]

theorem BuildersUnder.appendToList {p : Parser} {t : ItemType} {k : ListKind}
    (ho : ∀ u, p.objectBuilder u = decide (u = t))
    (hk : ∀ b, p.subBuilder k = some b → b.parent = some t) (hallowed : k.AllowedUnder t)
    (hothers : ∀ j, j ≠ k → p.subBuilder j = none) (es : List Entry) :
    (p.appendToList k (some t) es).BuildersUnder t := by
  refine ⟨fun u => by rw [objectBuilder_appendToList, ho], fun j b hb => ?_, fun j i hj hi => ?_⟩
  · rw [subBuilder_appendToList] at hb
    by_cases hjk : j = k
    · subst hjk
      simp only [if_true, Option.some.injEq] at hb
      subst hb
      cases hs : p.subBuilder j with
      | none => exact ⟨rfl, hallowed⟩
      | some b => exact ⟨hk b hs, hallowed⟩
    · simp [if_neg hjk, hothers j hjk] at hb
  · rw [subBuilder_appendToList] at hj hi
    by_cases hjk : j = k <;> by_cases hik : i = k
    · exact hjk.trans hik.symm
    all_goals simp_all

theorem parentPtr_of_under {p : Parser} {t : ItemType} (h : p.BuildersUnder t) :
    p.parentPtr t = some t := by
  simp [parentPtr, h.object]

theorem BuildersUnder.checkTag {p : Parser} {t : ItemType} (h : p.BuildersUnder t)
    (element : String) (attrs : Attrs) : (p.checkTag (some t) element attrs).BuildersUnder t := by
  unfold Parser.checkTag
  split
  · apply BuildersUnder.appendToList
    · exact fun u => h.object u
    · exact fun b hb => (h.sub .tags b hb).1
    · trivial
    · intro j hj
      cases j <;> first | rfl | exact absurd rfl hj
  · exact h

theorem BuildersUnder.ndElement {p : Parser} (h : p.BuildersUnder .way) (attrs : Attrs) :
    (p.ndElement attrs).BuildersUnder .way := by
  unfold Parser.ndElement
  rw [show p.parentPtr .way = some .way by simp [parentPtr, h.object]]
  apply BuildersUnder.appendToList
  · exact fun u => h.object u
  · exact fun b hb => (h.sub .wayNodes b hb).1
  · rfl
  · intro j hj
    cases j with
    | tags => rfl
    | wayNodes => exact absurd rfl hj
    | members =>
      cases hm : p.rmlBuilder with
      | none => rfl
      | some b => exact absurd (h.sub .members b hm).2 (by simp [ListKind.AllowedUnder])

theorem BuildersUnder.memberElement {p : Parser} (h : p.BuildersUnder .relation) (attrs : Attrs) :
    (p.memberElement attrs).BuildersUnder .relation := by
  unfold Parser.memberElement
  rw [show p.parentPtr .relation = some .relation by simp [parentPtr, h.object]]
  apply BuildersUnder.appendToList
  · exact fun u => h.object u
  · exact fun b hb => (h.sub .members b hb).1
  · rfl
  · intro j hj
    cases j with
    | tags => rfl
    | members => exact absurd rfl hj
    | wayNodes =>
      cases hm : p.wnlBuilder with
      | none => rfl
      | some b => exact absurd (h.sub .wayNodes b hm).2 (by simp [ListKind.AllowedUnder])

theorem BuildersUnder.release {p : Parser} {t : ItemType} (h : p.BuildersUnder t) :
    (p.releaseBuilders t).NoBuilders := by
  have hsub : ∀ k, ¬ k.AllowedUnder t → p.subBuilder k = none := fun k hk => by
    cases hb : p.subBuilder k with
    | none => rfl
    | some b => exact absurd (h.sub k b hb).2 hk
  constructor
  · intro u
    have hu := h.object u
    cases t <;> cases u <;> simp_all [releaseBuilders, objectBuilder]
  · intro k
    cases t <;> cases k <;> first
      | rfl
      | exact hsub .wayNodes (by simp [ListKind.AllowedUnder])
      | exact hsub .members (by simp [ListKind.AllowedUnder])

/-! ## One event keeps the invariant -/

theorem NoBuilders.openObject {p : Parser} (hv : p.NoBuilders) (t : ItemType) (b : Buffer)
    (c : Context) (d : Bool) :
    ({ ({ p with headerDone := d }).openObjectBuilder t with buffer := b, context := c }).BuildersUnder t ∧
      ∀ k, ({ ({ p with headerDone := d }).openObjectBuilder t with buffer := b, context := c }).subBuilder k = none := by
  have hsub : ∀ k, ({ ({ p with headerDone := d }).openObjectBuilder t with
      buffer := b, context := c }).subBuilder k = none := fun k => by
    have := hv.sub k
    cases t <;> cases k <;> simpa [subBuilder, openObjectBuilder] using this
  refine ⟨⟨fun u => ?_, fun k _ hb => by simp [hsub k] at hb, fun k _ hk => by simp [hsub k] at hk⟩, hsub⟩
  have hu := hv.object u
  cases t <;> cases u <;> simp_all [objectBuilder, openObjectBuilder]

theorem startObject_buildersValid {p q : Parser} {t : ItemType}
    {init : Bool → Except ParseError ObjectHeader} (hv : p.NoBuilders)
    (h : p.startObject t init = .ok q) : q.BuildersValid := by
  obtain ⟨-, ⟨-, hdr, -, rfl⟩ | ⟨-, rfl⟩⟩ := startObject_eq_ok h
  · exact buildersValid_of_context (t := t) rfl (hv.openObject t _ _ _).1
  · apply buildersValid_of_noBuilders (by cases t <;> simp [ItemType.ignoredContext])
    exact hv.of_same (sameBuilders_mk p _ _ _ _ _ _ _)

theorem startElement_buildersValid {p q : Parser} {element : String} {attrs : Attrs}
    (hv : p.BuildersValid) (h : p.startElement element attrs = .ok q) : q.BuildersValid := by
  unfold BuildersValid at hv
  have hin : ∀ (t : ItemType) (r : Parser), r.context = .inObject →
      r.lastContext = t.context → r.BuildersUnder t → r.BuildersValid := fun t r hc hl hr => by
    unfold BuildersValid; rw [hc]; exact ⟨t, hl, hr⟩
  have hsame := fun (c : Context) => sameBuilders_mk p .inObject c p.inDeleteSection p.header
    p.buffer p.queue p.headerDone
  have htop : ∀ r : Parser, r.context = .top → SameBuilders p r → p.NoBuilders →
      r.BuildersValid :=
    fun r hr hs hnb => buildersValid_of_noBuilders (by simp [hr]) (hnb.of_same hs)
  cases hc : p.context
  case top =>
    simp only [hc] at hv
    rcases startElement_top hc element attrs with ⟨t, ht⟩ | ht | ⟨hdr, d, ht⟩ <;> rw [ht] at h
    · exact startObject_buildersValid hv h
    · exact startObject_buildersValid hv h
    · cases h
      exact htop _ hc (sameBuilders_mk p _ _ _ _ _ _ _) hv
  all_goals simp only [startElement, hc] at h hv
  case root =>
    obtain ⟨hdr, rfl⟩ := startRoot_eq_ok h
    exact htop _ rfl (sameBuilders_mk p _ _ _ _ _ _ _) hv
  case node =>
    cases h
    exact hin .node _ (checkTag_frame ..).1 (checkTag_frame ..).2
      (by rw [parentPtr_of_under hv]; exact (hv.of_same (hsame .node)).checkTag _ _)
  case way =>
    split at h <;> cases h
    · exact hin .way _ (ndElement_frame ..).1 (ndElement_frame ..).2
        ((hv.of_same (hsame .way)).ndElement _)
    · exact hin .way _ (checkTag_frame ..).1 (checkTag_frame ..).2
        (by rw [parentPtr_of_under hv]; exact (hv.of_same (hsame .way)).checkTag _ _)
  case relation =>
    split at h <;> cases h
    · exact hin .relation _ (memberElement_frame ..).1 (memberElement_frame ..).2
        ((hv.of_same (hsame .relation)).memberElement _)
    · exact hin .relation _ (checkTag_frame ..).1 (checkTag_frame ..).2
        (by rw [parentPtr_of_under hv]; exact (hv.of_same (hsame .relation)).checkTag _ _)
  case changeset =>
    cases h
    exact hin .changeset _ (checkTag_frame ..).1 (checkTag_frame ..).2
      (by rw [parentPtr_of_under hv]; exact (hv.of_same (hsame .changeset)).checkTag _ _)
  all_goals cases h; unfold BuildersValid; rw [hc]; exact hv

section Flush
variable (needsFlush : Buffer → Bool)

theorem endElement_buildersValid {p q : Parser} {element : String} (hv : p.BuildersValid)
    (h : p.endElement needsFlush element = .ok q) : q.BuildersValid := by
  unfold endElement at h
  have hclose : ∀ t : ItemType, p.BuildersUnder t →
      ((p.releaseBuilders t).commitObject needsFlush).BuildersValid := fun t ht =>
    buildersValid_of_noBuilders (by simp) (ht.release.of_same (sameBuilders_commitObject _ _))
  have hleave : ∀ name, p.context ∈ [.ignoredNode, .ignoredWay, .ignoredRelation, .ignoredChangeset] →
      (p.leaveIgnored name element).BuildersValid := fun name hc => by
    have hnb : p.NoBuilders := by
      simp only [List.mem_cons, List.mem_singleton, List.not_mem_nil, or_false] at hc
      unfold BuildersValid at hv
      rcases hc with hc | hc | hc | hc <;> simpa only [hc] using hv
    unfold leaveIgnored
    split
    · exact buildersValid_of_noBuilders (by simp) (hnb.of_same (sameBuilders_mk p _ _ _ _ _ _ _))
    · exact hv
  cases hc : p.context <;> simp only [hc] at h
  case top =>
    have hnb : p.NoBuilders := by unfold BuildersValid at hv; rwa [hc] at hv
    split at h
    · obtain ⟨p', hp', hq⟩ := except_bind_eq_ok h
      obtain ⟨-, rfl⟩ := headerIsDone_eq_ok hp'
      cases hq
      exact buildersValid_of_noBuilders (by simp) (hnb.of_same (sameBuilders_mk p _ _ _ _ _ _ _))
    split at h <;> cases h
    · exact buildersValid_of_noBuilders (by simp [hc]) (hnb.of_same (sameBuilders_mk p _ _ _ _ _ _ _))
    · exact hv
  case node => cases h; exact hclose .node (hv.under hc)
  case way => cases h; exact hclose .way (hv.under hc)
  case relation => cases h; exact hclose .relation (hv.under hc)
  case changeset => cases h; exact hclose .changeset (hv.under hc)
  case inObject =>
    cases h
    unfold BuildersValid at hv
    rw [hc] at hv
    obtain ⟨t, hl, ht⟩ := hv
    exact buildersValid_of_context hl (ht.of_same (sameBuilders_mk p _ _ _ _ _ _ _))
  case root => cases h; exact hv
  all_goals cases h; exact hleave _ (by simp [hc])

theorem handle_buildersValid {p q : Parser} {e : Event} (hv : p.BuildersValid)
    (h : p.handle needsFlush e = .ok q) : q.BuildersValid := by
  cases e with
  | startElement n a => exact startElement_buildersValid hv h
  | endElement n => exact endElement_buildersValid needsFlush hv h

theorem run_buildersValid {p q : Parser} {events : List Event} (hv : p.BuildersValid)
    (h : p.run needsFlush events = .ok q) : q.BuildersValid := by
  induction events generalizing p with
  | nil => cases h; exact hv
  | cons e es ih =>
    obtain ⟨r, hr, hq⟩ := except_bind_eq_ok h
    exact ih (handle_buildersValid needsFlush hv hr) hq

/-- After every sequence of events that raises nowhere, the builders are as the context
says, and the resets of the closing tag, which run just before `commit()` and
`flush_buffer`, leave no builder alive. -/
theorem builders_match_context (readTypes : Nat) (events : List Event) (q : Parser)
    (h : (init readTypes).run needsFlush events = .ok q) :
    q.BuildersValid ∧ ∀ t : ItemType, q.context = t.context → (q.releaseBuilders t).NoBuilders := by
  have hv := run_buildersValid needsFlush
    (buildersValid_of_noBuilders (by simp [init]) (init_noBuilders readTypes)) h
  exact ⟨hv, fun t ht => (hv.under ht).release⟩

end Flush

def openWayEvents : List Event :=
  [.startElement "osm" [("version", "0.6")], .startElement "way" [],
    .startElement "nd" [("ref", "1")], .endElement "nd"]

/-- There the way builder and its node list are the only builders alive. -/
theorem builders_match_context_open_way :
    ∃ q, (init 2).run (fun _ => false) openWayEvents = .ok q ∧
      q.BuildersValid ∧ ∀ t : ItemType, q.context = t.context → (q.releaseBuilders t).NoBuilders :=
  ⟨_, rfl, builders_match_context (fun _ => false) 2 openWayEvents _ rfl⟩

end Parser

end OsrmNutiteq.Osmium
