import OsrmNutiteq.Osmium.XmlParser

/-! # `flush_buffer` loses and repeats nothing

The callbacks write only to the pending end of `m_buffer`, so the parser that flushes
refines the one that keeps every committed record in a single buffer.
-/
namespace OsrmNutiteq.Osmium
open Xml

namespace Parser

/-- The parser with committed records `c` in its buffer and `qu` as what it has pushed. -/
def withOutput (p : Parser) (c : List Record) (qu : List Buffer) : Parser :=
  { p with buffer := { p.buffer with committed := c }, queue := qu }

/-- The parser as it would be had `flush_buffer` never pushed: every record committed so
far in the one buffer. -/
def unflushed (p : Parser) : Parser := p.withOutput p.records []

@[simp] theorem withOutput_records (p : Parser) (c : List Record) (qu : List Buffer) :
    (p.withOutput c qu).records = qu.flatMap Buffer.committed ++ c := rfl

theorem withOutput_self (p : Parser) : p.withOutput p.buffer.committed p.queue = p := rfl

@[simp] theorem withOutput_readTypes (p : Parser) (c : List Record) (qu : List Buffer) :
    (p.withOutput c qu).readTypes = p.readTypes := rfl

@[simp] theorem withOutput_inDeleteSection (p : Parser) (c : List Record) (qu : List Buffer) :
    (p.withOutput c qu).inDeleteSection = p.inDeleteSection := rfl

@[simp] theorem withOutput_header (p : Parser) (c : List Record) (qu : List Buffer) :
    (p.withOutput c qu).header = p.header := rfl

/-! ## The callbacks that do not commit commute with the output -/

section Commute
variable (c : List Record) (qu : List Buffer)

theorem appendToList_withOutput (p : Parser) (k : ListKind) (par : Option ItemType)
    (es : List Entry) :
    (p.withOutput c qu).appendToList k par es = (p.appendToList k par es).withOutput c qu := by
  rw [appendToList_eq, appendToList_eq]
  cases k <;> rfl

theorem checkTag_withOutput (p : Parser) (par : Option ItemType) (element : String)
    (attrs : Attrs) :
    (p.withOutput c qu).checkTag par element attrs = (p.checkTag par element attrs).withOutput c qu := by
  unfold checkTag
  split
  · exact appendToList_withOutput c qu { p with wnlBuilder := none, rmlBuilder := none } _ _ _
  · rfl

theorem ndElement_withOutput (p : Parser) (attrs : Attrs) :
    (p.withOutput c qu).ndElement attrs = (p.ndElement attrs).withOutput c qu :=
  appendToList_withOutput c qu { p with tlBuilder := none } _ _ _

theorem memberElement_withOutput (p : Parser) (attrs : Attrs) :
    (p.withOutput c qu).memberElement attrs = (p.memberElement attrs).withOutput c qu :=
  appendToList_withOutput c qu { p with tlBuilder := none } _ _ _

theorem headerIsDone_withOutput (p : Parser) :
    (p.withOutput c qu).headerIsDone = p.headerIsDone.map (·.withOutput c qu) := by
  simp only [headerIsDone, withOutput_readTypes]
  split <;> rfl

theorem startObject_withOutput (p : Parser) (t : ItemType)
    (init : Bool → Except ParseError ObjectHeader) :
    (p.withOutput c qu).startObject t init = (p.startObject t init).map (·.withOutput c qu) := by
  unfold startObject
  rw [headerIsDone_withOutput]
  cases p.headerIsDone with
  | error e => rfl
  | ok p' =>
    simp only [Except.map, except_ok_bind, withOutput_readTypes, withOutput_inDeleteSection]
    split
    · cases init p'.inDeleteSection <;> cases t <;> rfl
    · rfl

theorem startRoot_withOutput (p : Parser) (element : String) (attrs : Attrs) :
    (p.withOutput c qu).startRoot element attrs = (p.startRoot element attrs).map (·.withOutput c qu) := by
  have hr : (p.withOutput c qu).rootElement element attrs = p.rootElement element attrs := by
    simp only [rootElement, withOutput_header]
  unfold startRoot
  rw [hr]
  cases p.rootElement element attrs with
  | mk h err => cases err <;> rfl

theorem startElement_withOutput (p : Parser) (element : String) (attrs : Attrs) :
    (p.withOutput c qu).startElement element attrs =
      (p.startElement element attrs).map (·.withOutput c qu) := by
  have hc : (p.withOutput c qu).context = p.context := rfl
  unfold startElement
  rw [hc]
  cases p.context with
  | root => exact startRoot_withOutput c qu p element attrs
  | top =>
    simp only
    by_cases h1 : element = "node"
    · simp only [if_pos h1]; exact startObject_withOutput c qu p _ _
    simp only [if_neg h1]
    by_cases h2 : element = "way"
    · simp only [if_pos h2]; exact startObject_withOutput c qu p _ _
    simp only [if_neg h2]
    by_cases h3 : element = "relation"
    · simp only [if_pos h3]; exact startObject_withOutput c qu p _ _
    simp only [if_neg h3]
    by_cases h4 : element = "changeset"
    · simp only [if_pos h4]; exact startObject_withOutput c qu p _ _
    simp only [if_neg h4]
    split_ifs <;> rfl
  | node =>
    exact congrArg Except.ok
      (checkTag_withOutput c qu { p with lastContext := .node, context := .inObject } _ _ _)
  | way =>
    simp only
    split_ifs
    · exact congrArg Except.ok
        (ndElement_withOutput c qu { p with lastContext := .way, context := .inObject } _)
    · exact congrArg Except.ok
        (checkTag_withOutput c qu { p with lastContext := .way, context := .inObject } _ _ _)
  | relation =>
    simp only
    split_ifs
    · exact congrArg Except.ok
        (memberElement_withOutput c qu { p with lastContext := .relation, context := .inObject } _)
    · exact congrArg Except.ok
        (checkTag_withOutput c qu { p with lastContext := .relation, context := .inObject } _ _ _)
  | changeset =>
    exact congrArg Except.ok
      (checkTag_withOutput c qu { p with lastContext := .changeset, context := .inObject } _ _ _)
  | ignoredNode | ignoredWay | ignoredRelation | ignoredChangeset | inObject => rfl

end Commute

theorem startElement_output {p q : Parser} {element : String} {attrs : Attrs}
    (h : p.startElement element attrs = .ok q) :
    q.buffer.committed = p.buffer.committed ∧ q.queue = p.queue := by
  have h' := startElement_withOutput p.buffer.committed p.queue p element attrs
  rw [withOutput_self, h] at h'
  have hq : q = q.withOutput p.buffer.committed p.queue := by simpa [Except.map] using h'
  rw [hq]
  exact ⟨rfl, rfl⟩

/-! ## One step and a whole run -/

section Refinement
variable (needsFlush : Buffer → Bool)

theorem startElement_unflushed {p q : Parser} {element : String} {attrs : Attrs}
    (h : p.startElement element attrs = .ok q) :
    p.unflushed.startElement element attrs = .ok q.unflushed := by
  have hr : q.records = p.records := by
    obtain ⟨h1, h2⟩ := startElement_output h
    simp [records, h1, h2]
  rw [unflushed, startElement_withOutput, h, unflushed, hr]
  rfl

theorem commitObject_unflushed (p : Parser) :
    (p.commitObject needsFlush).unflushed = p.unflushed.commitObject (fun _ => false) := by
  have hf : ∀ r : Parser, r.flushBuffer (fun _ => false) = r := fun r => by simp [flushBuffer]
  have hb : ∀ r : Parser, r.buffer.pending = [] →
      (r.flushBuffer needsFlush).unflushed = r.unflushed := fun r hr => by
    unfold flushBuffer; split <;> simp [unflushed, withOutput, records, hr, Buffer.empty]
  rw [commitObject, hb _ rfl, commitObject, hf]
  simp [unflushed, withOutput, records, Buffer.commit]

theorem endElement_unflushed (p : Parser) (element : String) :
    (p.endElement needsFlush element).map unflushed = p.unflushed.endElement (fun _ => false) element := by
  have hc : p.unflushed.context = p.context := rfl
  have hrel : ∀ t, (p.releaseBuilders t).unflushed = p.unflushed.releaseBuilders t := fun t => by
    cases t <;> rfl
  unfold endElement
  rw [hc]
  cases p.context with
  | root => rfl
  | top =>
    simp only
    split_ifs
    · rw [unflushed, headerIsDone_withOutput]
      cases h : p.headerIsDone with
      | error e => rfl
      | ok q => obtain ⟨-, rfl⟩ := headerIsDone_eq_ok h; rfl
    · rfl
    · rfl
  | node | way | relation | changeset =>
    simp only [Except.map, except_pure_eq]
    rw [commitObject_unflushed, hrel]
  | inObject => rfl
  | ignoredNode | ignoredWay | ignoredRelation | ignoredChangeset =>
    simp only [Except.map, except_pure_eq, leaveIgnored]
    split_ifs <;> rfl

theorem handle_unflushed (p : Parser) (e : Event) :
    (p.handle needsFlush e).map unflushed = p.unflushed.handle (fun _ => false) e := by
  cases e with
  | startElement element attrs =>
    simp only [handle]
    cases h : p.startElement element attrs with
    | error err =>
      rw [unflushed, startElement_withOutput, h]
      rfl
    | ok q => exact (startElement_unflushed h).symm
  | endElement element => exact endElement_unflushed needsFlush p element

/-- The flushing parser refines the one that keeps a single buffer: run for run, the same
exception or the same state with the pushed buffers put back in front. -/
theorem run_unflushed (p : Parser) (events : List Event) :
    (p.run needsFlush events).map unflushed = p.unflushed.run (fun _ => false) events := by
  induction events generalizing p with
  | nil => rfl
  | cons e es ih =>
    rw [run_cons, run_cons, ← handle_unflushed]
    cases p.handle needsFlush e with
    | error err => rfl
    | ok q => exact ih q

end Refinement

@[simp] theorem unflushed_records (p : Parser) : p.unflushed.records = p.records := by
  simp [unflushed]

/-- Whatever `flush_buffer`'s capacity test answers, a run of the callbacks raises the same
exception, or commits the same records in the same order across the buffers it pushed and
the one it holds. -/
theorem run_records_flush_independent (needsFlush needsFlush' : Buffer → Bool) (p : Parser)
    (events : List Event) :
    (p.run needsFlush events).map records = (p.run needsFlush' events).map records := by
  have hsingle : ∀ f : Buffer → Bool, (p.run f events).map records =
      (p.unflushed.run (fun _ => false) events).map records := by
    intro f
    rw [← run_unflushed f]
    cases p.run f events <;> simp [Except.map]
  rw [hsingle needsFlush, hsingle needsFlush']

end Parser

end OsrmNutiteq.Osmium
