import OsrmNutiteq.Osmium.BuilderInvariant

/-! # What the parser commits for an OSM document

The documents of the OSM XML shape, read as the list of objects they describe, and the runs
of the parser over their pieces, child by child.
-/
namespace OsrmNutiteq.Osmium
open Xml

/-! ## The shape of an OSM document -/

def kindOf (name : String) : Option ItemType :=
  if name = "node" then some .node
  else if name = "way" then some .way
  else if name = "relation" then some .relation
  else if name = "changeset" then some .changeset
  else none

def IsObjectChild (t : ItemType) : Element → Prop
  | .mk n _ cs => cs = [] ∧ (n = "tag" ∨ (n = "nd" ∧ t = .way) ∨ (n = "member" ∧ t = .relation))

def IsObjectElement (t : ItemType) : Element → Prop
  | .mk n _ cs => kindOf n = some t ∧ ∀ c ∈ cs, IsObjectChild t c

def IsTopChild : Element → Prop
  | .mk n a cs =>
    (n = "bounds" ∧ cs = []) ∨ (∃ t, IsObjectElement t (.mk n a cs)) ∨
    ((n = "create" ∨ n = "modify" ∨ n = "delete") ∧ ∀ c ∈ cs, ∃ t, IsObjectElement t c)

/-- A document of the OSM XML shape. -/
def IsOsmDocument : Element → Prop
  | .mk n a cs =>
    (n = "osm" ∨ n = "osmChange") ∧ ("version", "0.6") ∈ a ∧
      (∀ v, ("version", v) ∈ a → v = "0.6") ∧ ∀ c ∈ cs, IsTopChild c

/-- Every `visible` attribute of the document's objects is "true" or "false". -/
def VisibleAttributesValid (doc : Element) : Prop :=
  ∀ top ∈ doc.children, VisibleValid top.attrs ∧ ∀ o ∈ top.children, VisibleValid o.attrs

/-! ## The objects a document describes -/

/-- The list kind and entries one child of an object stands for. -/
def childItem (c : Element) : ListKind × List Entry :=
  if c.name = "tag" then (.tags, [tagEntry c.attrs])
  else if c.name = "nd" then (.wayNodes, ndEntries c.attrs)
  else (.members, [memberEntry c.attrs])

/-- Consecutive children of one kind share a list; a new list starts where the kind
changes. -/
def groupLists : List (ListKind × List Entry) → List (ListKind × List Entry)
  | [] => []
  | (k, es) :: rest =>
    match groupLists rest with
    | (k', es') :: ls => if k = k' then (k, es ++ es') :: ls else (k, es) :: (k', es') :: ls
    | [] => [(k, es)]

/-- The object an object element of kind `t` describes, inside a delete section or not. -/
def objectOf (inDelete : Bool) (t : ItemType) (e : Element) : OSMObject where
  type := t
  header := if t = .changeset then changesetHeader e.attrs else objectHeader inDelete t e.attrs
  lists := groupLists (e.children.map childItem)

def selectedObject (readTypes : Nat) (inDelete : Bool) (e : Element) : List OSMObject :=
  match kindOf e.name with
  | some t => if t.selectedBy readTypes then [objectOf inDelete t e] else []
  | none => []

def topObjects (readTypes : Nat) (e : Element) : List OSMObject :=
  if e.name = "create" ∨ e.name = "modify" ∨ e.name = "delete" then
    e.children.flatMap (selectedObject readTypes (e.name = "delete"))
  else selectedObject readTypes false e

/-- The objects of the kinds in `readTypes` that a document describes, in document order. -/
def documentObjects (readTypes : Nat) (doc : Element) : List OSMObject :=
  doc.children.flatMap (topObjects readTypes)

/-! ## Lists as the parser writes them -/

/-- The records one child writes, given the list left open before it: a list header only
where the kind changes. -/
def childRecords (cur : Option ListKind) (item : ListKind × List Entry) : List Record :=
  (if cur = some item.1 then [] else [.listStart item.1]) ++ item.2.map .entry

def writeChildren : Option ListKind → List (ListKind × List Entry) → List Record
  | _, [] => []
  | cur, item :: rest => childRecords cur item ++ writeChildren (some item.1) rest

theorem groupLists_cons_head (k : ListKind) (es : List Entry) (rest : List (ListKind × List Entry)) :
    ∃ xs ls, groupLists ((k, es) :: rest) = (k, es ++ xs) :: ls := by
  unfold groupLists
  split
  · rename_i k' es' ls _
    split
    · exact ⟨es', ls, rfl⟩
    · exact ⟨[], (k', es') :: ls, by simp⟩
  · exact ⟨[], [], by simp⟩

theorem writeChildren_some (k : ListKind) (es : List Entry) (rest : List (ListKind × List Entry)) :
    .listStart k :: (es.map .entry ++ writeChildren (some k) rest) =
      (groupLists ((k, es) :: rest)).flatMap encodeList := by
  induction rest generalizing k es with
  | nil => simp [writeChildren, groupLists, encodeList]
  | cons item rest ih =>
    obtain ⟨k2, es2⟩ := item
    obtain ⟨xs, ls, hg⟩ := groupLists_cons_head k2 es2 rest
    have ih' := ih k2 es2
    rw [hg] at ih'
    simp only [List.flatMap_cons, encodeList, List.cons_append, List.cons.injEq, true_and,
      List.map_append, List.append_assoc, List.append_cancel_left_eq] at ih'
    rw [groupLists, hg]
    by_cases hk : k = k2
    · subst hk
      simp [writeChildren, childRecords, encodeList, ih']
    · simp [writeChildren, childRecords, encodeList, hk, ih', List.flatMap_cons]

theorem writeChildren_none (items : List (ListKind × List Entry)) :
    writeChildren none items = (groupLists items).flatMap encodeList := by
  cases items with
  | nil => rfl
  | cons item rest =>
    obtain ⟨k, es⟩ := item
    rw [← writeChildren_some]
    simp [writeChildren, childRecords]

/-! ## Running the parser over the pieces of a document -/

namespace Parser

/-- `q` is `p` with `recs` written to its buffer, its queue, delete flag and `read_types`
kept. -/
structure Writes (p q : Parser) (recs : List Record) : Prop where
  buffer : q.buffer = p.buffer.writeAll recs
  queue : q.queue = p.queue
  delete : q.inDeleteSection = p.inDeleteSection
  readTypes : q.readTypes = p.readTypes

theorem Writes.trans {p q r : Parser} {a b : List Record} (h1 : Writes p q a) (h2 : Writes q r b) :
    Writes p r (a ++ b) :=
  ⟨by rw [h2.buffer, h1.buffer, Buffer.writeAll_writeAll], h2.queue.trans h1.queue,
    h2.delete.trans h1.delete, h2.readTypes.trans h1.readTypes⟩

def OpenList (p : Parser) (cur : Option ListKind) : Prop :=
  ∀ j, (p.subBuilder j).isSome ↔ cur = some j

theorem appendToList_open {p : Parser} {k : ListKind} {c : Option ListKind}
    (hk : (p.subBuilder k).isSome ↔ c = some k) (hothers : ∀ j, j ≠ k → p.subBuilder j = none)
    (par : Option ItemType) (es : List Entry) :
    OpenList (p.appendToList k par es) (some k) ∧
      Writes p (p.appendToList k par es) (childRecords c (k, es)) := by
  rw [appendToList_eq]
  obtain ⟨-, -, hd, hb, hq, hr⟩ := setSubBuilder_eq p (some ((p.subBuilder k).getD ⟨par⟩)) k
  refine ⟨fun j => ?_, ⟨?_, hq, hd, hr⟩⟩
  · by_cases hj : j = k
    · subst hj; simp
    · simp [hj, hothers j hj, Ne.symm hj]
  · simp only [childRecords, hb]
    by_cases hc : c = some k <;> simp [hc, hk]

theorem startElement_tag {r : Parser} {t : ItemType} (hc : r.context = t.context) (a : Attrs) :
    r.startElement "tag" a =
      .ok (({ r with lastContext := t.context, context := .inObject }).checkTag (r.parentPtr t) "tag" a) := by
  cases t <;> simp [startElement, hc, ItemType.context]

theorem startElement_nd {r : Parser} (hc : r.context = .way) (a : Attrs) :
    r.startElement "nd" a = .ok (({ r with lastContext := .way, context := .inObject }).ndElement a) := by
  simp [startElement, hc]

theorem startElement_member {r : Parser} (hc : r.context = .relation) (a : Attrs) :
    r.startElement "member" a =
      .ok (({ r with lastContext := .relation, context := .inObject }).memberElement a) := by
  simp [startElement, hc]

section Run
variable (needsFlush : Buffer → Bool)

theorem endElement_inObject {q : Parser} (hc : q.context = .inObject) (n : String) :
    q.endElement needsFlush n = .ok { q with context := q.lastContext } := by
  simp [endElement, hc]

theorem appendToList_child {r z : Parser} {k : ListKind} {cur : Option ListKind} (ho : r.OpenList cur)
    (hk : z.subBuilder k = r.subBuilder k) (hothers : ∀ j, j ≠ k → z.subBuilder j = none)
    (hz : r.Writes z []) (par : Option ItemType) (es : List Entry) :
    (z.appendToList k par es).OpenList (some k) ∧
      r.Writes (z.appendToList k par es) (childRecords cur (k, es)) := by
  obtain ⟨h1, h2⟩ := appendToList_open (c := cur) (by rw [hk]; exact ho k) hothers par es
  exact ⟨h1, by simpa using hz.trans h2⟩

theorem run_objectChild {r : Parser} {t : ItemType} {cur : Option ListKind} {c : Element}
    (hc : r.context = t.context) (hb : r.BuildersUnder t) (ho : r.OpenList cur)
    (hch : IsObjectChild t c) :
    ∃ r', r.run needsFlush c.events = .ok r' ∧ r.assertsTripped needsFlush c.events = false ∧
      r'.context = t.context ∧ r'.BuildersUnder t ∧ r'.OpenList (some (childItem c).1) ∧
      r.Writes r' (childRecords cur (childItem c)) := by
  obtain ⟨n, a, cs⟩ := c
  obtain ⟨rfl, hk⟩ := hch
  suffices h : ∃ q, r.startElement n a = .ok q ∧ q.context = .inObject ∧
      q.lastContext = t.context ∧ q.BuildersUnder t ∧ q.OpenList (some (childItem (.mk n a [])).1) ∧
      r.Writes q (childRecords cur (childItem (.mk n a []))) by
    obtain ⟨q, hq, hqc, hql, hqb, hqo, hqw⟩ := h
    refine ⟨{ q with context := q.lastContext }, ?_, ?_, hql, ?_, hqo, ?_⟩
    · simp [run_cons, handle, hq, endElement_inObject _ hqc]
    · simp [assertsTripped, assertionFails, hc, handle, hq, hqc, endElement_inObject _ hqc]
    · exact hqb.of_same (sameBuilders_mk q _ _ _ _ _ _ _)
    · exact ⟨hqw.buffer, hqw.queue, hqw.delete, hqw.readTypes⟩
  have hX := sameBuilders_mk r .inObject t.context r.inDeleteSection r.header r.buffer r.queue
    r.headerDone
  have hw : ∀ z : Parser, z.buffer = r.buffer → z.queue = r.queue →
      z.inDeleteSection = r.inDeleteSection → z.readTypes = r.readTypes → r.Writes z [] :=
    fun z h1 h2 h3 h4 => ⟨by simp [h1], h2, h3, h4⟩
  rcases hk with rfl | ⟨rfl, rfl⟩ | ⟨rfl, rfl⟩
  · refine ⟨_, startElement_tag hc a, (checkTag_frame ..).1, (checkTag_frame ..).2, ?_, ?_⟩
    · rw [parentPtr_of_under hb]; exact (hb.of_same hX).checkTag _ _
    · have hi : childItem (.mk "tag" a []) = (.tags, [tagEntry a]) := by simp [childItem, Element.name, Element.attrs]
      rw [hi, Parser.checkTag, if_pos rfl]
      exact appendToList_child (z := { { r with lastContext := t.context, context := .inObject } with
        wnlBuilder := none, rmlBuilder := none }) (k := .tags) ho rfl
        (fun j hj => by cases j <;> first | rfl | exact absurd rfl hj) (hw _ rfl rfl rfl rfl) _ _
  · refine ⟨_, startElement_nd hc a, (ndElement_frame ..).1, (ndElement_frame ..).2,
      (hb.of_same hX).ndElement _, ?_⟩
    have hi : childItem (.mk "nd" a []) = (.wayNodes, ndEntries a) := by simp [childItem, Element.name, Element.attrs]
    rw [hi, Parser.ndElement]
    refine appendToList_child (z := { { r with lastContext := .way, context := .inObject } with
      tlBuilder := none }) (k := .wayNodes) ho rfl (fun j hj => ?_) (hw _ rfl rfl rfl rfl) _ _
    cases j with
    | tags => rfl
    | wayNodes => exact absurd rfl hj
    | members =>
      cases hm : r.rmlBuilder with
      | none => rfl
      | some b => exact absurd (hb.sub .members b hm).2 (by simp [ListKind.AllowedUnder])
  · refine ⟨_, startElement_member hc a, (memberElement_frame ..).1, (memberElement_frame ..).2,
      (hb.of_same hX).memberElement _, ?_⟩
    have hi : childItem (.mk "member" a []) = (.members, [memberEntry a]) := by simp [childItem, Element.name, Element.attrs]
    rw [hi, Parser.memberElement]
    refine appendToList_child (z := { { r with lastContext := .relation, context := .inObject } with
      tlBuilder := none }) (k := .members) ho rfl (fun j hj => ?_) (hw _ rfl rfl rfl rfl) _ _
    cases j with
    | tags => rfl
    | members => exact absurd rfl hj
    | wayNodes =>
      cases hm : r.wnlBuilder with
      | none => rfl
      | some b => exact absurd (hb.sub .wayNodes b hm).2 (by simp [ListKind.AllowedUnder])

theorem run_objectChildren {t : ItemType} (cs : List Element) (hcs : ∀ c ∈ cs, IsObjectChild t c)
    {r : Parser} {cur : Option ListKind} (hc : r.context = t.context) (hb : r.BuildersUnder t)
    (ho : r.OpenList cur) :
    ∃ r', r.run needsFlush (cs.flatMap Element.events) = .ok r' ∧
      r.assertsTripped needsFlush (cs.flatMap Element.events) = false ∧
      r'.context = t.context ∧ r'.BuildersUnder t ∧ r.Writes r' (writeChildren cur (cs.map childItem)) := by
  induction cs generalizing r cur with
  | nil => exact ⟨r, rfl, rfl, hc, hb, ⟨by simp [writeChildren], rfl, rfl, rfl⟩⟩
  | cons c cs ih =>
    obtain ⟨r1, h1, a1, hc1, hb1, ho1, hw1⟩ :=
      run_objectChild needsFlush hc hb ho (hcs c (List.mem_cons_self _ _))
    obtain ⟨r2, h2, a2, hc2, hb2, hw2⟩ :=
      ih (fun c hc => hcs c (List.mem_cons_of_mem _ hc)) hc1 hb1 ho1
    refine ⟨r2, ?_, ?_, hc2, hb2, ?_⟩
    · rw [List.flatMap_cons, run_append, h1]; exact h2
    · rw [List.flatMap_cons, assertsTripped_append _ _ h1, a1, a2]; rfl
    · simpa [writeChildren] using hw1.trans hw2

/-- The parser between two children of the root: no builder is set and nothing has been
written since the last commit. -/
structure AtTop (p : Parser) : Prop where
  context : p.context = .top
  noBuilders : p.NoBuilders
  pending : p.buffer.pending = []
  readTypes : p.readTypes ≠ entityNothing

theorem atTop_mk {p : Parser} (hb : p.NoBuilders) (hpend : p.buffer.pending = [])
    (hrt : p.readTypes ≠ entityNothing) {c : Context} (hc : c = .top) (l : Context) (d : Bool)
    (h : Header) (hd : Bool) :
    AtTop ⟨c, l, d, h, p.buffer, p.nodeBuilder, p.wayBuilder, p.relationBuilder,
      p.changesetBuilder, p.tlBuilder, p.wnlBuilder, p.rmlBuilder, p.queue, p.readTypes, hd⟩ :=
  ⟨hc, hb.of_same (sameBuilders_mk p c l d h p.buffer p.queue hd), hpend, hrt⟩

theorem AtTop.update {p : Parser} (hp : p.AtTop) {c : Context} (hc : c = .top) (l : Context)
    (d : Bool) (h : Header) (hd : Bool) :
    AtTop ⟨c, l, d, h, p.buffer, p.nodeBuilder, p.wayBuilder, p.relationBuilder,
      p.changesetBuilder, p.tlBuilder, p.wnlBuilder, p.rmlBuilder, p.queue, p.readTypes, hd⟩ :=
  atTop_mk hp.noBuilders hp.pending hp.readTypes hc l d h hd

theorem AtTop.noAssert {p : Parser} (hp : p.AtTop) (e : Event) : p.assertionFails e = false := by
  have htl : p.tlBuilder = none := hp.noBuilders.sub .tags
  cases e <;> simp [assertionFails, hp.context, htl]

/-- From one state at top to the next: the delete flag and `read_types` kept, `recs`
committed. -/
structure TopStep (p q : Parser) (recs : List Record) : Prop where
  atTop : q.AtTop
  delete : q.inDeleteSection = p.inDeleteSection
  readTypes : q.readTypes = p.readTypes
  records : q.records = p.records ++ recs

theorem TopStep.trans {p q r : Parser} {a b : List Record} (h1 : TopStep p q a) (h2 : TopStep q r b) :
    TopStep p r (a ++ b) :=
  ⟨h2.atTop, h2.delete.trans h1.delete, h2.readTypes.trans h1.readTypes,
    by rw [h2.records, h1.records, List.append_assoc]⟩

theorem kindOf_eq_some {n : String} {t : ItemType} (h : kindOf n = some t) : n = t.elementName := by
  unfold kindOf at h
  split_ifs at h <;> cases h <;> simp_all [ItemType.elementName]

/-- The header the `top` branch initialises an object of kind `t` with. -/
def objectInit (t : ItemType) (a : Attrs) : Bool → Except ParseError ObjectHeader :=
  if t = .changeset then fun _ => .ok (initChangeset a) else fun d => initObject d t a

theorem startElement_object {p : Parser} {t : ItemType} {n : String} (hc : p.context = .top)
    (hk : kindOf n = some t) (a : Attrs) : p.startElement n a = p.startObject t (objectInit t a) := by
  rw [kindOf_eq_some hk]
  cases t <;> simp [startElement, hc, ItemType.elementName, objectInit]

theorem endElement_object {r : Parser} {t : ItemType} (hc : r.context = t.context) (n : String) :
    r.endElement needsFlush n = .ok ((r.releaseBuilders t).commitObject needsFlush) := by
  cases t <;> simp [endElement, hc, ItemType.context]

theorem objectInit_eq {t : ItemType} {a : Attrs} (hv : VisibleValid a) (d : Bool) :
    objectInit t a d = .ok (if t = .changeset then changesetHeader a else objectHeader d t a) := by
  unfold objectInit
  split
  · simp [initChangeset_eq]
  · simp [initObject_eq _ _ _ hv, *]

theorem startElement_opensObject {p : Parser} {t : ItemType} {n : String} {a : Attrs}
    (hp : p.AtTop) (hk : kindOf n = some t) (hsel : t.selectedBy p.readTypes = true)
    {hdr : ObjectHeader} (hh : objectInit t a p.inDeleteSection = .ok hdr) :
    ∃ q, p.startElement n a = .ok q ∧ q.context = t.context ∧ q.BuildersUnder t ∧
      q.OpenList none ∧ p.Writes q [.object t hdr] := by
  obtain ⟨hb, hsub⟩ := hp.noBuilders.openObject t (p.buffer.write (.object t hdr)) t.context true
  refine ⟨_, ?_, by cases t <;> rfl, hb, fun j => by simp [hsub j], ?_⟩
  · rw [startElement_object hp.context hk, startObject, headerIsDone, if_neg hp.readTypes]
    simp [hsel, hh]
  · cases t <;> exact ⟨rfl, rfl, rfl, rfl⟩

theorem run_object {p : Parser} {t : ItemType} {e : Element} (hp : p.AtTop)
    (he : IsObjectElement t e) (hsel : t.selectedBy p.readTypes = true) (hv : VisibleValid e.attrs) :
    ∃ q, p.run needsFlush e.events = .ok q ∧ p.assertsTripped needsFlush e.events = false ∧
      p.TopStep q (objectOf p.inDeleteSection t e).encode := by
  obtain ⟨n, a, cs⟩ := e
  obtain ⟨hk, hcs⟩ := he
  replace hv : VisibleValid a := hv
  obtain ⟨q1, hs, hq1c, hq1b, hq1o, hq1w⟩ := startElement_opensObject hp hk hsel (objectInit_eq hv _)
  obtain ⟨r, hr, ar, hrc, hrb, hrw⟩ := run_objectChildren needsFlush cs hcs hq1c hq1b hq1o
  obtain ⟨hrb1, hrq1, hrr1, hrd1⟩ := releaseBuilders_frame r t
  have hw := hq1w.trans hrw
  have hend : r.assertionFails (.endElement n) = false := by
    rw [kindOf_eq_some hk]
    cases t <;> simp [assertionFails, hrc, ItemType.context, ItemType.elementName]
  have hs' : p.handle needsFlush (.startElement n a) = .ok q1 := hs
  have he' : r.handle needsFlush (.endElement n) = _ := endElement_object needsFlush hrc n
  refine ⟨(r.releaseBuilders t).commitObject needsFlush, ?_, ?_,
    ⟨⟨by simp, ?_, by simp, ?_⟩, ?_, ?_, ?_⟩⟩
  · simp [run_cons, handle, hs, run_append, hr, endElement_object needsFlush hrc]
  · rw [Element.events_mk, assertsTripped_cons_ok _ _ hs', assertsTripped_append _ _ hr,
      assertsTripped_cons_ok _ _ he']
    simp [hp.noAssert, ar, hend, assertsTripped]
  · exact hrb.release.of_same (sameBuilders_commitObject _ _)
  · simpa [hrr1, hw.readTypes] using hp.readTypes
  · simp [hrd1, hw.delete]
  · simp [hrr1, hw.readTypes]
  · rw [commitObject_records]
    simp [records, hrb1, hrq1, hw.buffer, hw.queue, hp.pending, writeChildren_none,
      OSMObject.encode, objectOf, Element.children, Element.attrs]

theorem startElement_ignored {q : Parser} {t : ItemType} (hc : q.context = t.ignoredContext)
    (n : String) (a : Attrs) : q.startElement n a = .ok q := by
  cases t <;> simp [startElement, hc, ItemType.ignoredContext]

theorem endElement_ignored {q : Parser} {t : ItemType} (hc : q.context = t.ignoredContext)
    (n : String) : q.endElement needsFlush n = .ok (q.leaveIgnored t.elementName n) := by
  cases t <;> simp [endElement, hc, ItemType.ignoredContext, ItemType.elementName]

theorem assertionFails_ignored {q : Parser} {t : ItemType} (hc : q.context = t.ignoredContext)
    (e : Event) : q.assertionFails e = false := by
  cases e <;> cases t <;> simp [assertionFails, hc, ItemType.ignoredContext]

theorem run_ignoredChildren {q : Parser} {t : ItemType} (hc : q.context = t.ignoredContext)
    (cs : List Element) (hcs : ∀ c ∈ cs, IsObjectChild t c) :
    q.run needsFlush (cs.flatMap Element.events) = .ok q ∧
      q.assertsTripped needsFlush (cs.flatMap Element.events) = false := by
  induction cs with
  | nil => exact ⟨rfl, rfl⟩
  | cons c cs ih =>
    obtain ⟨n, a, cs'⟩ := c
    obtain ⟨rfl, hn⟩ := hcs _ (List.mem_cons_self _ _)
    have hne : n ≠ t.elementName := by
      rcases hn with rfl | ⟨rfl, -⟩ | ⟨rfl, -⟩ <;> cases t <;> decide
    obtain ⟨h1, h2⟩ := ih fun c hc => hcs c (List.mem_cons_of_mem _ hc)
    have hl : q.leaveIgnored t.elementName n = q := by simp [leaveIgnored, hne]
    have hr : q.run needsFlush (Element.mk n a []).events = .ok q := by
      simp [run_cons, handle, startElement_ignored hc, endElement_ignored _ hc, hl]
    have ha : q.assertsTripped needsFlush (Element.mk n a []).events = false := by
      simp [assertsTripped, handle, startElement_ignored hc, endElement_ignored _ hc,
        assertionFails_ignored hc]
    rw [List.flatMap_cons, run_append, hr, except_ok_bind, assertsTripped_append _ _ hr, ha, h2]
    exact ⟨h1, rfl⟩

theorem run_ignoredObject {p : Parser} {t : ItemType} {e : Element} (hp : p.AtTop)
    (he : IsObjectElement t e) (hsel : t.selectedBy p.readTypes = false) :
    ∃ q, p.run needsFlush e.events = .ok q ∧ p.assertsTripped needsFlush e.events = false ∧
      p.TopStep q [] := by
  obtain ⟨n, a, cs⟩ := e
  obtain ⟨hk, hcs⟩ := he
  set q1 : Parser := { p with headerDone := true, context := t.ignoredContext }
  have hs : p.handle needsFlush (.startElement n a) = .ok q1 := by
    rw [handle, startElement_object hp.context hk, startObject, headerIsDone, if_neg hp.readTypes]
    simp [hsel, q1]
  have hc : q1.context = t.ignoredContext := rfl
  obtain ⟨h1, h2⟩ := run_ignoredChildren needsFlush hc cs hcs
  have he' : q1.handle needsFlush (.endElement n) = .ok { q1 with context := .top } := by
    rw [handle, endElement_ignored _ hc, leaveIgnored, if_pos (kindOf_eq_some hk)]
  refine ⟨{ q1 with context := .top }, ?_, ?_, ⟨hp.update rfl _ _ _ _, rfl, rfl, by simp [records, q1]⟩⟩
  · rw [Element.events_mk, run_cons, hs, except_ok_bind, run_append, h1, except_ok_bind, run_cons,
      he']
    rfl
  · rw [Element.events_mk, assertsTripped_cons_ok _ _ hs, assertsTripped_append _ _ h1,
      assertsTripped_cons_ok _ _ he']
    simp [hp.noAssert, h2, assertionFails_ignored hc, assertsTripped]

theorem run_objectElement {p : Parser} {t : ItemType} {e : Element} (hp : p.AtTop)
    (he : IsObjectElement t e) (hv : VisibleValid e.attrs) :
    ∃ q, p.run needsFlush e.events = .ok q ∧ p.assertsTripped needsFlush e.events = false ∧
      p.TopStep q ((selectedObject p.readTypes p.inDeleteSection e).flatMap OSMObject.encode) := by
  have hk : kindOf e.name = some t := by obtain ⟨n, a, cs⟩ := e; exact he.1
  cases hsel : t.selectedBy p.readTypes
  · simpa [selectedObject, hk, hsel] using run_ignoredObject needsFlush hp he hsel
  · simpa [selectedObject, hk, hsel] using run_object needsFlush hp he hsel hv

theorem run_objectElements (cs : List Element)
    (hcs : ∀ c ∈ cs, (∃ t, IsObjectElement t c) ∧ VisibleValid c.attrs) {p : Parser} (hp : p.AtTop) :
    ∃ q, p.run needsFlush (cs.flatMap Element.events) = .ok q ∧
      p.assertsTripped needsFlush (cs.flatMap Element.events) = false ∧
      p.TopStep q ((cs.flatMap (selectedObject p.readTypes p.inDeleteSection)).flatMap OSMObject.encode) := by
  induction cs generalizing p with
  | nil => exact ⟨p, rfl, rfl, ⟨hp, rfl, rfl, by simp⟩⟩
  | cons c cs ih =>
    obtain ⟨⟨t, ht⟩, hv⟩ := hcs c (List.mem_cons_self _ _)
    obtain ⟨r1, h1, a1, s1⟩ := run_objectElement needsFlush hp ht hv
    obtain ⟨r2, h2, a2, s2⟩ := ih (fun c hc => hcs c (List.mem_cons_of_mem _ hc)) s1.atTop
    refine ⟨r2, by rw [List.flatMap_cons, run_append, h1]; exact h2,
      by rw [List.flatMap_cons, assertsTripped_append _ _ h1, a1, a2]; rfl, ?_⟩
    rw [s1.delete, s1.readTypes] at s2
    simpa using s1.trans s2

theorem startElement_section {p : Parser} (hc : p.context = .top) {n : String}
    (hn : n = "create" ∨ n = "modify" ∨ n = "delete") (a : Attrs) :
    p.startElement n a = .ok (if n = "delete" then { p with inDeleteSection := true } else p) := by
  rcases hn with rfl | rfl | rfl <;> simp [startElement, hc]

theorem endElement_top {q : Parser} (hc : q.context = .top) {n : String}
    (hn : n ≠ "osm" ∧ n ≠ "osmChange") :
    q.endElement needsFlush n = .ok (if n = "delete" then { q with inDeleteSection := false } else q) := by
  simp [endElement, hc, hn.1, hn.2]
  split <;> rfl

theorem run_topChild {p : Parser} {e : Element} (hp : p.AtTop) (hd : p.inDeleteSection = false)
    (he : IsTopChild e) (hv : VisibleValid e.attrs ∧ ∀ o ∈ e.children, VisibleValid o.attrs) :
    ∃ q, p.run needsFlush e.events = .ok q ∧ p.assertsTripped needsFlush e.events = false ∧
      p.TopStep q ((topObjects p.readTypes e).flatMap OSMObject.encode) := by
  obtain ⟨n, a, cs⟩ := e
  rcases he with ⟨rfl, rfl⟩ | ⟨t, ht⟩ | ⟨hn, hcs⟩
  · -- `bounds`: its box goes to the header
    set q : Parser := { p with header := { p.header with boxes := p.header.boxes ++ [boundsBox a] } }
    have hs : p.handle needsFlush (.startElement "bounds" a) = .ok q := by
      simp [handle, startElement, hp.context, q]
    have he : q.handle needsFlush (.endElement "bounds") = .ok q := by
      have hqc : q.context = .top := hp.context
      rw [handle, endElement_top needsFlush hqc (by decide)]
      rfl
    have hev : (Element.mk "bounds" a []).events = [.startElement "bounds" a, .endElement "bounds"] := by
      simp
    refine ⟨q, ?_, ?_, ⟨hp.update hp.context _ _ _ _, rfl, rfl, ?_⟩⟩
    · simp [hev, run_cons, hs, he]
    · rw [hev, assertsTripped_cons_ok _ _ hs, assertsTripped_cons_ok _ _ he]
      simp [hp.noAssert, (hp.update hp.context _ _ _ _).noAssert, assertsTripped]
    · simp [topObjects, selectedObject, kindOf, Element.name, records, q]
  · -- an object outside any section
    have hk : kindOf n = some t := ht.1
    have hname : ¬(n = "create" ∨ n = "modify" ∨ n = "delete") := by
      rw [kindOf_eq_some hk]; cases t <;> decide
    have htop : topObjects p.readTypes (.mk n a cs) = selectedObject p.readTypes false (.mk n a cs) := by
      simp only [topObjects, Element.name, if_neg hname]
    rw [htop]
    simpa only [hd] using run_objectElement needsFlush hp ht hv.1
  · -- a section: its objects, with the delete flag set inside `delete`
    set p1 : Parser := if n = "delete" then { p with inDeleteSection := true } else p
    have hp1 : p1.AtTop := by
      by_cases h : n = "delete" <;> simp only [p1, h, if_true, if_false]
      · exact hp.update hp.context _ _ _ _
      · exact hp
    have hd1 : p1.inDeleteSection = decide (n = "delete") := by
      by_cases h : n = "delete" <;> simp [p1, h, hd]
    have hs : p.handle needsFlush (.startElement n a) = .ok p1 := startElement_section hp.context hn a
    obtain ⟨r, hr, ar, sr⟩ := run_objectElements needsFlush cs
      (fun c hc => ⟨hcs c hc, hv.2 c hc⟩) hp1
    have hname : n ≠ "osm" ∧ n ≠ "osmChange" := by rcases hn with rfl | rfl | rfl <;> decide
    set q : Parser := if n = "delete" then { r with inDeleteSection := false } else r
    have he : r.handle needsFlush (.endElement n) = .ok q :=
      endElement_top needsFlush sr.atTop.context hname
    have hq : q.AtTop ∧ q.inDeleteSection = false ∧ q.readTypes = r.readTypes ∧ q.records = r.records := by
      by_cases h : n = "delete"
      · rw [show q = { r with inDeleteSection := false } from if_pos h]
        exact ⟨sr.atTop.update sr.atTop.context _ _ _ _, rfl, rfl, rfl⟩
      · rw [show q = r from if_neg h]
        exact ⟨sr.atTop, by simp [sr.delete, hd1, h], rfl, rfl⟩
    have hp1r : p1.readTypes = p.readTypes ∧ p1.records = p.records := by
      by_cases h : n = "delete" <;> simp [p1, h, records]
    refine ⟨q, ?_, ?_, ⟨hq.1, hq.2.1.trans hd.symm, hq.2.2.1.trans (sr.readTypes.trans hp1r.1), ?_⟩⟩
    · rw [Element.events_mk, run_cons, hs, except_ok_bind, run_append, hr, except_ok_bind, run_cons,
        he, except_ok_bind, run_nil]
    · rw [Element.events_mk, assertsTripped_cons_ok _ _ hs, assertsTripped_append _ _ hr,
        assertsTripped_cons_ok _ _ he]
      simp [hp.noAssert, ar, sr.atTop.noAssert, assertsTripped]
    · rw [hq.2.2.2, sr.records, hp1r.2, hd1, hp1r.1]
      simp [topObjects, Element.name, Element.children, hn]

theorem run_topChildren (cs : List Element)
    (hcs : ∀ c ∈ cs, IsTopChild c ∧ VisibleValid c.attrs ∧ ∀ o ∈ c.children, VisibleValid o.attrs)
    {p : Parser} (hp : p.AtTop) (hd : p.inDeleteSection = false) :
    ∃ q, p.run needsFlush (cs.flatMap Element.events) = .ok q ∧
      p.assertsTripped needsFlush (cs.flatMap Element.events) = false ∧
      p.TopStep q ((cs.flatMap (topObjects p.readTypes)).flatMap OSMObject.encode) := by
  induction cs generalizing p with
  | nil => exact ⟨p, rfl, rfl, ⟨hp, rfl, rfl, by simp⟩⟩
  | cons c cs ih =>
    obtain ⟨hc, hv⟩ := hcs c (List.mem_cons_self _ _)
    obtain ⟨r1, h1, a1, s1⟩ := run_topChild needsFlush hp hd hc hv
    obtain ⟨r2, h2, a2, s2⟩ :=
      ih (fun c hc => hcs c (List.mem_cons_of_mem _ hc)) s1.atTop (s1.delete.trans hd)
    refine ⟨r2, by rw [List.flatMap_cons, run_append, h1]; exact h2,
      by rw [List.flatMap_cons, assertsTripped_append _ _ h1, a1, a2]; rfl, ?_⟩
    rw [s1.readTypes] at s2
    simpa using s1.trans s2

theorem startRoot_document {p : Parser} {n : String} {a : Attrs} (hn : n = "osm" ∨ n = "osmChange")
    (hver : ("version", "0.6") ∈ a) (hvers : ∀ v, ("version", v) ∈ a → v = "0.6") :
    ∃ h, p.startRoot n a = .ok { p with header := h, context := .top } := by
  obtain ⟨h, e, hh⟩ := rootAttributes_version
    (if n = "osmChange" then { p.header with hasMultipleObjectVersions := true } else p.header) a hvers
  have hne : h.get "version" ≠ "" := by rw [hh (.inr hver)]; decide
  exact ⟨h, by simp [startRoot, rootElement, hn, e, hne]⟩

/-- A whole document of the OSM shape, from the parser's first state: no `assert` trips, and
the committed records are those of the objects the document describes. -/
theorem run_document (readTypes : Nat) (hrt : readTypes ≠ entityNothing) (doc : Element)
    (hdoc : IsOsmDocument doc) (hvis : VisibleAttributesValid doc) :
    ∃ q, (init readTypes).run needsFlush doc.events = .ok q ∧
      (init readTypes).assertsTripped needsFlush doc.events = false ∧
      q.records = (documentObjects readTypes doc).flatMap OSMObject.encode := by
  obtain ⟨n, a, cs⟩ := doc
  obtain ⟨hn, hver, hvers, hcs⟩ := hdoc
  obtain ⟨h, hs⟩ := startRoot_document (p := init readTypes) hn hver hvers
  set p1 : Parser := { init readTypes with header := h, context := .top }
  have hs' : (init readTypes).handle needsFlush (.startElement n a) = .ok p1 := hs
  have hp1 : p1.AtTop := atTop_mk (init_noBuilders readTypes) rfl hrt rfl _ _ _ _
  obtain ⟨r, hr, ar, sr⟩ := run_topChildren needsFlush cs (fun c hc => ⟨hcs c hc, hvis c hc⟩) hp1 rfl
  have he : r.handle needsFlush (.endElement n) = .ok { r with headerDone := true, context := .root } := by
    have hrc : r.context = .top := sr.atTop.context
    have hrt' : r.readTypes ≠ entityNothing := sr.atTop.readTypes
    simp [handle, endElement, hrc, hn, headerIsDone, hrt']
  refine ⟨{ r with headerDone := true, context := .root }, ?_, ?_, ?_⟩
  · rw [Element.events_mk, run_cons, hs', except_ok_bind, run_append, hr, except_ok_bind, run_cons,
      he, except_ok_bind, run_nil]
  · rw [Element.events_mk, assertsTripped_cons_ok _ _ hs', assertsTripped_append _ _ hr,
      assertsTripped_cons_ok _ _ he]
    have hstart : (init readTypes).assertionFails (.startElement n a) = false := rfl
    simp [hstart, ar, sr.atTop.noAssert, assertsTripped]
  · rw [show ({ r with headerDone := true, context := .root } : Parser).records = r.records from rfl,
      sr.records]
    simp [documentObjects, records, init, Element.children]

/-- For a document of the OSM shape whose `visible` attributes are "true" or "false", the
objects the parser commits are exactly those `documentObjects` describes, in document order. -/
theorem parser_commits_document_objects (readTypes : Nat) (hrt : readTypes ≠ entityNothing)
    (doc : Element) (hdoc : IsOsmDocument doc) (hvis : VisibleAttributesValid doc) :
    ∃ q, (init readTypes).run needsFlush doc.events = .ok q ∧
      decode q.records = documentObjects readTypes doc := by
  obtain ⟨q, hq, -, hr⟩ := run_document needsFlush readTypes hrt doc hdoc hvis
  exact ⟨q, hq, by rw [hr, decode_encode]⟩

end Run

/-- A node marked invisible outside any delete section. -/
def hiddenNodeDocument : Element :=
  .mk "osm" [("version", "0.6")] [.mk "node" [("id", "1"), ("visible", "false")] []]

theorem parser_commits_document_objects_hidden_node :
    (1 : Nat) ≠ entityNothing ∧ IsOsmDocument hiddenNodeDocument ∧
      VisibleAttributesValid hiddenNodeDocument ∧
      ∃ q, (init 1).run (fun _ => false) hiddenNodeDocument.events = .ok q ∧
        decode q.records = documentObjects 1 hiddenNodeDocument := by
  have hdoc : IsOsmDocument hiddenNodeDocument := by
    simp [hiddenNodeDocument, IsOsmDocument, IsTopChild, IsObjectElement, kindOf]
  have hvis : VisibleAttributesValid hiddenNodeDocument := by
    unfold VisibleAttributesValid VisibleValid hiddenNodeDocument
    decide
  exact ⟨by decide, hdoc, hvis, parser_commits_document_objects _ 1 (by decide) _ hdoc hvis⟩

/-- The node of `hiddenNodeDocument` lies in no delete section, yet the parser commits it
with `visible` false: the attribute decides, not the section. -/
theorem hidden_node_committed_invisible :
    IsOsmDocument hiddenNodeDocument ∧
      ∃ q, (init 1).run (fun _ => false) hiddenNodeDocument.events = .ok q ∧
        (decode q.records).map (·.header.visible) = [false] :=
  ⟨by simp [hiddenNodeDocument, IsOsmDocument, IsTopChild, IsObjectElement, kindOf], _, rfl, rfl⟩

/-- A well-formed XML document with an element under a `tag`, then a second `tag`. -/
def nestedTagDocument : Element :=
  .mk "osm" [("version", "0.6")]
    [.mk "node" [("id", "1")]
      [.mk "tag" [("k", "a"), ("v", "1")] [.mk "x" [] []], .mk "tag" [("k", "b"), ("v", "2")] []]]

/-- On `nestedTagDocument` the `assert`s of `start_element` and `end_element` trip; without
them the node is committed at the first `tag`'s closing tag and its second tag is lost. -/
theorem nested_tag_trips_asserts :
    (init 1).assertsTripped (fun _ => false) nestedTagDocument.events = true ∧
      ∃ q, (init 1).run (fun _ => false) nestedTagDocument.events = .ok q ∧
        decode q.records = [⟨.node, objectHeader false .node [("id", "1")], [(.tags, [.tag "a" "1"])]⟩] :=
  ⟨rfl, _, rfl, rfl⟩

end Parser

end OsrmNutiteq.Osmium
