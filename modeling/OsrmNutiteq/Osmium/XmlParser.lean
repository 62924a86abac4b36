import OsrmNutiteq.Osmium.Attributes

/-! # The context machine of `XMLParser`

`start_element` and `end_element` as transitions of the parser's state. A builder pointer is
kept as whether it is set, the `assert`s are compiled out as in a release build, and
`flush_buffer`'s capacity test, which depends on osmium's byte layout, is a parameter.
-/
namespace OsrmNutiteq.Osmium
open Xml

inductive Context where
  | root | top | node | way | relation | changeset
  | ignoredNode | ignoredWay | ignoredRelation | ignoredChangeset | inObject
  deriving DecidableEq, Repr

def ItemType.context : ItemType → Context
  | .node => .node
  | .way => .way
  | .relation => .relation
  | .changeset => .changeset

@[simp] theorem ItemType.context_ne_inObject (t : ItemType) : t.context ≠ .inObject := by
  cases t <;> simp [ItemType.context]

@[simp] theorem ItemType.context_ne_top (t : ItemType) : t.context ≠ .top := by
  cases t <;> simp [ItemType.context]

@[simp] theorem ItemType.context_ne_root (t : ItemType) : t.context ≠ .root := by
  cases t <;> simp [ItemType.context]

def ItemType.ignoredContext : ItemType → Context
  | .node => .ignoredNode
  | .way => .ignoredWay
  | .relation => .ignoredRelation
  | .changeset => .ignoredChangeset

/-- A live sub-list builder and the object builder handed to it as parent (`none` when
that pointer was null). -/
structure SubBuilder where
  parent : Option ItemType
  deriving DecidableEq, Repr

structure Parser where
  context : Context
  lastContext : Context
  inDeleteSection : Bool
  header : Header
  buffer : Buffer
  nodeBuilder : Bool
  wayBuilder : Bool
  relationBuilder : Bool
  changesetBuilder : Bool
  tlBuilder : Option SubBuilder
  wnlBuilder : Option SubBuilder
  rmlBuilder : Option SubBuilder
  /-- The buffers pushed to `m_queue`, oldest first. -/
  queue : List Buffer
  readTypes : Nat
  /-- `m_header_is_done`. -/
  headerDone : Bool
  deriving DecidableEq, Repr

namespace Parser

/-- The parser as its constructor leaves it. -/
def init (readTypes : Nat) : Parser where
  context := .root
  lastContext := .root
  inDeleteSection := false
  header := Header.init
  buffer := Buffer.empty
  nodeBuilder := false
  wayBuilder := false
  relationBuilder := false
  changesetBuilder := false
  tlBuilder := none
  wnlBuilder := none
  rmlBuilder := none
  queue := []
  readTypes := readTypes
  headerDone := false

/-- Every record committed so far: those of the pushed buffers, then the current one's. -/
def records (p : Parser) : List Record := p.queue.flatMap Buffer.committed ++ p.buffer.committed

def objectBuilder (p : Parser) : ItemType → Bool
  | .node => p.nodeBuilder
  | .way => p.wayBuilder
  | .relation => p.relationBuilder
  | .changeset => p.changesetBuilder

def openObjectBuilder (p : Parser) : ItemType → Parser
  | .node => { p with nodeBuilder := true }
  | .way => { p with wayBuilder := true }
  | .relation => { p with relationBuilder := true }
  | .changeset => { p with changesetBuilder := true }

/-- `m_<kind>_builder.get()`: the parent pointer a sub-list builder is created with. -/
def parentPtr (p : Parser) (t : ItemType) : Option ItemType :=
  if p.objectBuilder t then some t else none

def subBuilder (p : Parser) : ListKind → Option SubBuilder
  | .tags => p.tlBuilder
  | .wayNodes => p.wnlBuilder
  | .members => p.rmlBuilder

def setSubBuilder (p : Parser) (b : Option SubBuilder) : ListKind → Parser
  | .tags => { p with tlBuilder := b }
  | .wayNodes => { p with wnlBuilder := b }
  | .members => { p with rmlBuilder := b }

/-- `if (!builder) builder = new ...(m_buffer, parent);` followed by the builder's `add_*`
calls: a list is opened only when its builder is not already set. -/
def appendToList (p : Parser) (k : ListKind) (parent : Option ItemType) (es : List Entry) :
    Parser :=
  let p := if (p.subBuilder k).isNone then
      { p.setSubBuilder (some ⟨parent⟩) k with buffer := p.buffer.write (.listStart k) }
    else p
  { p with buffer := p.buffer.writeAll (es.map .entry) }

@[simp] theorem setSubBuilder_subBuilder (p : Parser) (b : Option SubBuilder) (k j : ListKind) :
    (p.setSubBuilder b k).subBuilder j = if j = k then b else p.subBuilder j := by
  cases k <;> cases j <;> rfl

@[simp] theorem setSubBuilder_objectBuilder (p : Parser) (b : Option SubBuilder) (k : ListKind)
    (u : ItemType) : (p.setSubBuilder b k).objectBuilder u = p.objectBuilder u := by
  cases k <;> cases u <;> rfl

@[simp] theorem subBuilder_setBuffer (p : Parser) (b : Buffer) (j : ListKind) :
    ({ p with buffer := b }).subBuilder j = p.subBuilder j := by
  cases j <;> rfl

@[simp] theorem objectBuilder_setBuffer (p : Parser) (b : Buffer) (u : ItemType) :
    ({ p with buffer := b }).objectBuilder u = p.objectBuilder u := by
  cases u <;> rfl

theorem setSubBuilder_eq (p : Parser) (b : Option SubBuilder) (k : ListKind) :
    (p.setSubBuilder b k).context = p.context ∧ (p.setSubBuilder b k).lastContext = p.lastContext ∧
      (p.setSubBuilder b k).inDeleteSection = p.inDeleteSection ∧
      (p.setSubBuilder b k).buffer = p.buffer ∧ (p.setSubBuilder b k).queue = p.queue ∧
      (p.setSubBuilder b k).readTypes = p.readTypes := by
  cases k <;> exact ⟨rfl, rfl, rfl, rfl, rfl, rfl⟩

theorem appendToList_eq (p : Parser) (k : ListKind) (par : Option ItemType) (es : List Entry) :
    p.appendToList k par es =
      { p.setSubBuilder (some ((p.subBuilder k).getD ⟨par⟩)) k with
        buffer := p.buffer.writeAll
          ((if (p.subBuilder k).isSome then [] else [.listStart k]) ++ es.map .entry) } := by
  unfold appendToList
  cases h : p.subBuilder k <;> cases k <;>
    simp_all [setSubBuilder, subBuilder, Buffer.writeAll, Buffer.write]

theorem appendToList_frame (p : Parser) (k : ListKind) (par : Option ItemType) (es : List Entry) :
    (p.appendToList k par es).context = p.context ∧
      (p.appendToList k par es).lastContext = p.lastContext := by
  unfold appendToList
  split <;> cases k <;> exact ⟨rfl, rfl⟩

/-- `check_tag`: a `tag` child resets the way-node and member builders and adds to the
tag list; any other element is ignored. -/
def checkTag (p : Parser) (parent : Option ItemType) (element : String) (attrs : Attrs) :
    Parser :=
  if element = "tag" then
    ({ p with wnlBuilder := none, rmlBuilder := none }).appendToList .tags parent [tagEntry attrs]
  else p

def ndElement (p : Parser) (attrs : Attrs) : Parser :=
  ({ p with tlBuilder := none }).appendToList .wayNodes (p.parentPtr .way) (ndEntries attrs)

def memberElement (p : Parser) (attrs : Attrs) : Parser :=
  ({ p with tlBuilder := none }).appendToList .members (p.parentPtr .relation) [memberEntry attrs]

theorem checkTag_frame (p : Parser) (par : Option ItemType) (element : String) (attrs : Attrs) :
    (p.checkTag par element attrs).context = p.context ∧
      (p.checkTag par element attrs).lastContext = p.lastContext := by
  unfold checkTag
  split
  · exact appendToList_frame _ _ _ _
  · exact ⟨rfl, rfl⟩

theorem ndElement_frame (p : Parser) (attrs : Attrs) :
    (p.ndElement attrs).context = p.context ∧ (p.ndElement attrs).lastContext = p.lastContext :=
  appendToList_frame _ _ _ _

theorem memberElement_frame (p : Parser) (attrs : Attrs) :
    (p.memberElement attrs).context = p.context ∧
      (p.memberElement attrs).lastContext = p.lastContext :=
  appendToList_frame _ _ _ _

def headerIsDone (p : Parser) : Except ParseError Parser :=
  if p.readTypes = entityNothing then .error .parserIsDone else .ok { p with headerDone := true }

theorem headerIsDone_eq_ok {p q : Parser} (h : p.headerIsDone = .ok q) :
    p.readTypes ≠ entityNothing ∧ q = { p with headerDone := true } := by
  unfold headerIsDone at h
  split at h
  · cases h
  · cases h
    exact ⟨‹_›, rfl⟩

/-- The `top` branch of an object element: `header_is_done()`, then, when the kind is
read, a new object builder initialised by `init` (given the delete-section flag). -/
def startObject (p : Parser) (t : ItemType) (init : Bool → Except ParseError ObjectHeader) :
    Except ParseError Parser := do
  let p ← p.headerIsDone
  if t.selectedBy p.readTypes then
    let h ← init p.inDeleteSection
    pure { p.openObjectBuilder t with buffer := p.buffer.write (.object t h), context := t.context }
  else pure { p with context := t.ignoredContext }

theorem startObject_eq_ok {p q : Parser} {t : ItemType} {init : Bool → Except ParseError ObjectHeader}
    (h : p.startObject t init = .ok q) :
    p.readTypes ≠ entityNothing ∧
      ((t.selectedBy p.readTypes = true ∧ ∃ hdr, init p.inDeleteSection = .ok hdr ∧
        q = { ({ p with headerDone := true }).openObjectBuilder t with
          buffer := p.buffer.write (.object t hdr), context := t.context }) ∨
      (t.selectedBy p.readTypes = false ∧ q = { p with headerDone := true, context := t.ignoredContext })) := by
  obtain ⟨p', hp', hq⟩ := except_bind_eq_ok h
  obtain ⟨hrt, rfl⟩ := headerIsDone_eq_ok hp'
  refine ⟨hrt, ?_⟩
  by_cases hs : t.selectedBy p.readTypes = true
  · simp only [hs, if_true] at hq
    obtain ⟨hdr, hh, hq⟩ := except_bind_eq_ok hq
    cases hq
    exact .inl ⟨hs, hdr, hh, rfl⟩
  · simp only [hs, if_false, Bool.false_eq_true] at hq
    cases hq
    exact .inr ⟨by simpa using hs, rfl⟩

/-- The `root` branch of `start_element`: the header it leaves and what it throws. It writes
the `osmChange` flag and each attribute as it meets them, so a `format_version_error` leaves
them in the header, which the promise keeper then hands over. -/
def rootElement (p : Parser) (element : String) (attrs : Attrs) : Header × Option ParseError :=
  if element = "osm" ∨ element = "osmChange" then
    let h := if element = "osmChange" then { p.header with hasMultipleObjectVersions := true }
      else p.header
    match rootAttributes h attrs with
    | (h, some err) => (h, some err)
    | (h, none) => (h, if h.get "version" = "" then some (.formatVersion none) else none)
  else (p.header, some (.xml ("Unknown top-level element: " ++ element)))

def startRoot (p : Parser) (element : String) (attrs : Attrs) : Except ParseError Parser :=
  match p.rootElement element attrs with
  | (_, some err) => .error err
  | (h, none) => pure { p with header := h, context := .top }

theorem startRoot_eq_ok {p q : Parser} {element : String} {attrs : Attrs}
    (h : p.startRoot element attrs = .ok q) : ∃ hdr, q = { p with header := hdr, context := .top } := by
  unfold startRoot at h
  split at h
  · cases h
  · cases h
    exact ⟨_, rfl⟩

def startElement (p : Parser) (element : String) (attrs : Attrs) : Except ParseError Parser :=
  match p.context with
  | .root => p.startRoot element attrs
  | .top =>
    if element = "node" then p.startObject .node fun d => initObject d .node attrs
    else if element = "way" then p.startObject .way fun d => initObject d .way attrs
    else if element = "relation" then p.startObject .relation fun d => initObject d .relation attrs
    else if element = "changeset" then p.startObject .changeset fun _ => .ok (initChangeset attrs)
    else if element = "bounds" then
      pure { p with header := { p.header with boxes := p.header.boxes ++ [boundsBox attrs] } }
    else if element = "delete" then pure { p with inDeleteSection := true }
    else pure p
  | .node =>
    pure (({ p with lastContext := .node, context := .inObject }).checkTag
      (p.parentPtr .node) element attrs)
  | .way =>
    let q := { p with lastContext := .way, context := .inObject }
    if element = "nd" then pure (q.ndElement attrs) else pure (q.checkTag (p.parentPtr .way) element attrs)
  | .relation =>
    let q := { p with lastContext := .relation, context := .inObject }
    if element = "member" then pure (q.memberElement attrs)
    else pure (q.checkTag (p.parentPtr .relation) element attrs)
  | .changeset =>
    pure (({ p with lastContext := .changeset, context := .inObject }).checkTag
      (p.parentPtr .changeset) element attrs)
  | .ignoredNode | .ignoredWay | .ignoredRelation | .ignoredChangeset => pure p
  | .inObject => pure p

theorem startElement_top {p : Parser} (hc : p.context = .top) (element : String) (attrs : Attrs) :
    (∃ t, p.startElement element attrs = p.startObject t fun d => initObject d t attrs) ∨
    p.startElement element attrs = p.startObject .changeset (fun _ => .ok (initChangeset attrs)) ∨
    ∃ hdr d, p.startElement element attrs = .ok { p with header := hdr, inDeleteSection := d } := by
  simp only [startElement, hc]
  by_cases h1 : element = "node"
  · exact .inl ⟨.node, if_pos h1⟩
  rw [if_neg h1]
  by_cases h2 : element = "way"
  · exact .inl ⟨.way, if_pos h2⟩
  rw [if_neg h2]
  by_cases h3 : element = "relation"
  · exact .inl ⟨.relation, if_pos h3⟩
  rw [if_neg h3]
  by_cases h4 : element = "changeset"
  · exact .inr (.inl (if_pos h4))
  rw [if_neg h4]
  refine .inr (.inr ?_)
  split
  · exact ⟨_, _, rfl⟩
  split
  · exact ⟨_, _, rfl⟩
  · exact ⟨p.header, p.inDeleteSection, by rw [← hc]; rfl⟩

/-- What the OSM XML format asks of the root element: the name `osm` or `osmChange`, and
version 0.6. The error of the first check that fails, if one does. -/
def rootCheck (element : String) (attrs : Attrs) : Option ParseError :=
  if element = "osm" ∨ element = "osmChange" then
    match attrs.find? (fun nv => nv.1 = "version" ∧ nv.2 ≠ "0.6") with
    | some (_, v) => some (.formatVersion (some v))
    | none => if attrs.any (·.1 = "version") then none else some (.formatVersion none)
  else some (.xml ("Unknown top-level element: " ++ element))

/-- The first element is accepted exactly when it passes `rootCheck`, and the parser then
enters the `top` context with version 0.6 in its header; otherwise `start_element` raises
the error `rootCheck` names. -/
theorem startElement_root (readTypes : Nat) (element : String) (attrs : Attrs) :
    (∀ e, rootCheck element attrs = some e → (init readTypes).startElement element attrs = .error e) ∧
    (rootCheck element attrs = none → ∃ q, (init readTypes).startElement element attrs = .ok q ∧
      q.context = .top ∧ q.header.get "version" = "0.6") := by
  show (∀ e, _ → (init readTypes).startRoot element attrs = _) ∧ (_ → ∃ q, (init readTypes).startRoot element attrs = _ ∧ _)
  unfold rootCheck startRoot rootElement
  by_cases hn : element = "osm" ∨ element = "osmChange"
  swap
  · simp only [if_neg hn, Option.some.injEq]
    exact ⟨fun e he => by rw [he], fun h => by cases h⟩
  simp only [if_pos hn]
  -- the header the attribute loop starts from holds no version
  generalize hh0 : (if element = "osmChange" then { (init readTypes).header with
    hasMultipleObjectVersions := true } else (init readTypes).header) = h0
  have hv0 : h0.get "version" = "" := by
    rw [← hh0]
    split <;> rfl
  cases hf : attrs.find? (fun nv => nv.1 = "version" ∧ nv.2 ≠ "0.6") with
  | some nv =>
    obtain ⟨n, v⟩ := nv
    obtain ⟨he, -⟩ := rootAttributes_bad_version h0 hf
    rcases hr : rootAttributes h0 attrs with ⟨h', _ | e'⟩ <;> simp only [hr] at he ⊢ <;> cases he
    exact ⟨fun e he => by cases he; rfl, fun h => by cases h⟩
  | none =>
    have hgood : ∀ v, ("version", v) ∈ attrs → v = "0.6" := fun v hm => by
      have := List.find?_eq_none.mp hf _ hm
      simpa using this
    by_cases hany : attrs.any (·.1 = "version") = true
    · obtain ⟨⟨n, v⟩, hm, hnv⟩ := List.any_eq_true.mp hany
      obtain rfl : n = "version" := by simpa using hnv
      obtain rfl := hgood v hm
      obtain ⟨h', e, hh'⟩ := rootAttributes_version h0 attrs hgood
      have hv' : h'.get "version" = "0.6" := hh' (.inr hm)
      simp only [hany, if_true, e, hv', if_neg (by decide : ¬"0.6" = ""), except_pure_eq]
      exact ⟨fun e he => (Option.noConfusion he), fun _ => ⟨_, rfl, rfl, hv'⟩⟩
    · have hnone : ∀ nv ∈ attrs, nv.1 ≠ "version" := fun nv hm hv =>
        hany (List.any_eq_true.mpr ⟨nv, hm, by simpa using hv⟩)
      obtain ⟨h', e, hh'⟩ := rootAttributes_no_version h0 hnone
      simp only [hany, Bool.false_eq_true, if_false, e, hh', hv0, if_true, Option.some.injEq]
      exact ⟨fun e he => by rw [he], fun h => by cases h⟩

example : rootCheck "osm" [("generator", "x"), ("version", "0.5"), ("version", "0.7")] =
    some (.formatVersion (some "0.5")) := by decide

example : rootCheck "osmChange" [("generator", "x")] = some (.formatVersion none) := by decide

/-- The builder resets of the `end_element` branch of each kind. -/
def releaseBuilders (p : Parser) : ItemType → Parser
  | .node => { p with tlBuilder := none, nodeBuilder := false }
  | .way => { p with tlBuilder := none, wnlBuilder := none, wayBuilder := false }
  | .relation => { p with tlBuilder := none, rmlBuilder := none, relationBuilder := false }
  | .changeset => { p with tlBuilder := none, changesetBuilder := false }

theorem releaseBuilders_frame (p : Parser) (t : ItemType) :
    (p.releaseBuilders t).buffer = p.buffer ∧ (p.releaseBuilders t).queue = p.queue ∧
      (p.releaseBuilders t).readTypes = p.readTypes ∧
      (p.releaseBuilders t).inDeleteSection = p.inDeleteSection := by
  cases t <;> exact ⟨rfl, rfl, rfl, rfl⟩

section Flush
variable (needsFlush : Buffer → Bool)

/-- `flush_buffer`: hand the buffer to the queue and continue in a fresh one. -/
def flushBuffer (p : Parser) : Parser :=
  if needsFlush p.buffer then { p with queue := p.queue ++ [p.buffer], buffer := Buffer.empty }
  else p

/-- `m_buffer.commit(); m_context = context::top; flush_buffer();` -/
def commitObject (p : Parser) : Parser :=
  ({ p with buffer := p.buffer.commit, context := .top }).flushBuffer needsFlush

@[simp] theorem flushBuffer_context (p : Parser) : (p.flushBuffer needsFlush).context = p.context := by
  unfold flushBuffer; split <;> rfl

@[simp] theorem commitObject_context (p : Parser) : (p.commitObject needsFlush).context = .top := by
  simp [commitObject]

@[simp] theorem flushBuffer_records (p : Parser) : (p.flushBuffer needsFlush).records = p.records := by
  unfold flushBuffer; split <;> simp [records]

theorem commitObject_records (p : Parser) :
    (p.commitObject needsFlush).records = p.records ++ p.buffer.pending := by
  rw [commitObject, flushBuffer_records]
  simp [records]

@[simp] theorem commitObject_pending (p : Parser) : (p.commitObject needsFlush).buffer.pending = [] := by
  unfold commitObject flushBuffer; split <;> rfl

@[simp] theorem commitObject_readTypes (p : Parser) :
    (p.commitObject needsFlush).readTypes = p.readTypes := by
  unfold commitObject flushBuffer; split <;> rfl

@[simp] theorem commitObject_inDeleteSection (p : Parser) :
    (p.commitObject needsFlush).inDeleteSection = p.inDeleteSection := by
  unfold commitObject flushBuffer; split <;> rfl

/-- The `ignored_*` branches: only the closing tag of the skipped kind leaves them. -/
def leaveIgnored (p : Parser) (name element : String) : Parser :=
  if element = name then { p with context := .top } else p

def endElement (p : Parser) (element : String) : Except ParseError Parser :=
  match p.context with
  | .root => pure p
  | .top =>
    if element = "osm" ∨ element = "osmChange" then do
      let p ← p.headerIsDone
      pure { p with context := .root }
    else if element = "delete" then pure { p with inDeleteSection := false }
    else pure p
  | .node => pure ((p.releaseBuilders .node).commitObject needsFlush)
  | .way => pure ((p.releaseBuilders .way).commitObject needsFlush)
  | .relation => pure ((p.releaseBuilders .relation).commitObject needsFlush)
  | .changeset => pure ((p.releaseBuilders .changeset).commitObject needsFlush)
  | .inObject => pure { p with context := p.lastContext }
  | .ignoredNode => pure (p.leaveIgnored "node" element)
  | .ignoredWay => pure (p.leaveIgnored "way" element)
  | .ignoredRelation => pure (p.leaveIgnored "relation" element)
  | .ignoredChangeset => pure (p.leaveIgnored "changeset" element)

def handle (p : Parser) : Event → Except ParseError Parser
  | .startElement n a => p.startElement n a
  | .endElement n => p.endElement needsFlush n

def run (p : Parser) : List Event → Except ParseError Parser
  | [] => .ok p
  | e :: es => do
    let q ← p.handle needsFlush e
    q.run es

@[simp] theorem run_nil (p : Parser) : p.run needsFlush [] = .ok p := rfl

theorem run_cons (p : Parser) (e : Event) (es : List Event) :
    p.run needsFlush (e :: es) = (p.handle needsFlush e >>= fun q => q.run needsFlush es) := rfl

theorem run_append (p : Parser) (xs ys : List Event) :
    p.run needsFlush (xs ++ ys) = (p.run needsFlush xs >>= fun q => q.run needsFlush ys) := by
  induction xs generalizing p with
  | nil => rfl
  | cons e xs ih =>
    simp only [List.cons_append, run_cons]
    cases p.handle needsFlush e with
    | error err => rfl
    | ok q => exact ih q

end Flush

/-- Whether handling the event trips one of the `assert`s of `start_element` and
`end_element`. -/
def assertionFails (p : Parser) : Event → Bool
  | .startElement _ _ => p.context = .inObject || (p.context = .top && p.tlBuilder.isSome)
  | .endElement e =>
    match p.context with
    | .root => true
    | .node => e != "node"
    | .way => e != "way"
    | .relation => e != "relation"
    | .changeset => e != "changeset"
    | _ => false

section Asserts
variable (needsFlush : Buffer → Bool)

/-- Whether an `assert` trips on some event of the run, up to where the run stops. -/
def assertsTripped (p : Parser) : List Event → Bool
  | [] => false
  | e :: es =>
    p.assertionFails e ||
      match p.handle needsFlush e with
      | .ok q => q.assertsTripped es
      | .error _ => false

theorem assertsTripped_cons_ok {p q : Parser} {e : Event} (es : List Event)
    (h : p.handle needsFlush e = .ok q) :
    p.assertsTripped needsFlush (e :: es) = (p.assertionFails e || q.assertsTripped needsFlush es) := by
  simp [assertsTripped, h]

theorem assertsTripped_append {p q : Parser} {xs : List Event} (ys : List Event)
    (h : p.run needsFlush xs = .ok q) :
    p.assertsTripped needsFlush (xs ++ ys) =
      (p.assertsTripped needsFlush xs || q.assertsTripped needsFlush ys) := by
  induction xs generalizing p with
  | nil => cases h; simp [assertsTripped]
  | cons e xs ih =>
    obtain ⟨r, hr, hq⟩ := except_bind_eq_ok h
    simp [assertsTripped, hr, ih hq, Bool.or_assoc]

end Asserts

end Parser

end OsrmNutiteq.Osmium
