import Mathlib.Data.List.Basic

/-! # Expat element events

`XMLParser` sees a document only through the two callbacks it registers with Expat:
`start_element` with the element name and its attribute pairs, and `end_element` with
the name. Character data has no handler. A document is an element tree; Expat reports
it depth first, one start event, the events of the children in order, one end event.
-/
namespace OsrmNutiteq.Xml

abbrev Attrs := List (String × String)

/-- The value of the last attribute called `name`, as every attribute loop of the parser
keeps it (XML forbids repeating a name, so this is the attribute's value). -/
def attrValue (name : String) (attrs : Attrs) : Option String :=
  attrs.foldl (fun acc a => if a.1 = name then some a.2 else acc) none

@[simp] theorem attrValue_nil (name : String) : attrValue name [] = none := rfl

inductive Element where
  | mk (name : String) (attrs : Attrs) (children : List Element)
  deriving Repr

inductive Event where
  | startElement (name : String) (attrs : Attrs)
  | endElement (name : String)
  deriving DecidableEq, Repr

namespace Element

def name : Element → String
  | mk n _ _ => n

def attrs : Element → Attrs
  | mk _ a _ => a

def children : Element → List Element
  | mk _ _ cs => cs

/-- The callbacks Expat makes for the element, in order. -/
def events : Element → List Event
  | mk n a cs => .startElement n a :: eventsOf cs ++ [.endElement n]
where
  /-- The callbacks for a sequence of sibling elements. -/
  eventsOf : List Element → List Event
    | [] => []
    | c :: cs => c.events ++ eventsOf cs

@[simp] theorem eventsOf_nil : events.eventsOf [] = [] := rfl

@[simp] theorem eventsOf_cons (c : Element) (cs : List Element) :
    events.eventsOf (c :: cs) = c.events ++ events.eventsOf cs := rfl

theorem eventsOf_eq_flatMap (cs : List Element) : events.eventsOf cs = cs.flatMap events := by
  induction cs with
  | nil => rfl
  | cons c cs ih => simp [ih]

@[simp] theorem events_mk (n : String) (a : Attrs) (cs : List Element) :
    (mk n a cs).events = .startElement n a :: (cs.flatMap events ++ [.endElement n]) := by
  simp [events, eventsOf_eq_flatMap]

end Element

end OsrmNutiteq.Xml
