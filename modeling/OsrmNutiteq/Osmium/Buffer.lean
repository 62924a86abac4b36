import OsrmNutiteq.Osmium.Xml

/-! # Records in an osmium buffer

The builders append records to the end of one buffer and `commit()` makes them visible. The
model keeps the stream of records, not its bytes: sizes, padding and the parents' size
fields are left out.
-/
namespace OsrmNutiteq.Osmium
open Xml

/-- The object kinds the XML parser builds (`osmium::item_type`). -/
inductive ItemType where
  | node | way | relation | changeset
  deriving DecidableEq, Repr

/-- The bit of each kind in an `osm_entity_bits` mask such as `read_types`. -/
def ItemType.entityBit : ItemType → Nat
  | .node => 0x01
  | .way => 0x02
  | .relation => 0x04
  | .changeset => 0x10

/-- `m_read_types & osm_entity_bits::<kind>` is nonzero. -/
def ItemType.selectedBy (t : ItemType) (readTypes : Nat) : Bool :=
  readTypes &&& t.entityBit != 0

def entityNothing : Nat := 0

def ItemType.elementName : ItemType → String
  | .node => "node"
  | .way => "way"
  | .relation => "relation"
  | .changeset => "changeset"

inductive ListKind where
  | tags | wayNodes | members
  deriving DecidableEq, Repr

inductive Entry where
  | tag (key value : String)
  | nodeRef (ref : String)
  | member (type : Char) (ref : String) (role : String)
  deriving DecidableEq, Repr

/-- What `init_object` or `init_changeset` and `add_user` write with the object. -/
structure ObjectHeader where
  visible : Bool
  user : String
  location : List (String × String)
  fields : Attrs
  deriving DecidableEq, Repr

inductive Record where
  | object (type : ItemType) (header : ObjectHeader)
  | listStart (kind : ListKind)
  | entry (e : Entry)
  deriving DecidableEq, Repr

structure OSMObject where
  type : ItemType
  header : ObjectHeader
  lists : List (ListKind × List Entry)
  deriving DecidableEq, Repr

def encodeList (l : ListKind × List Entry) : List Record := .listStart l.1 :: l.2.map .entry

def OSMObject.encode (o : OSMObject) : List Record :=
  .object o.type o.header :: o.lists.flatMap encodeList

/-- Right to left: entries gather into the list opened before them, lists into the object
opened before them. Records before the first object belong to none and are dropped. -/
def decodeAux : List Record → List Entry × List (ListKind × List Entry) × List OSMObject
  | [] => ([], [], [])
  | .entry e :: rs => let d := decodeAux rs; (e :: d.1, d.2.1, d.2.2)
  | .listStart k :: rs => let d := decodeAux rs; ([], (k, d.1) :: d.2.1, d.2.2)
  | .object t h :: rs => let d := decodeAux rs; ([], [], ⟨t, h, d.2.1⟩ :: d.2.2)

def decode (rs : List Record) : List OSMObject := (decodeAux rs).2.2

theorem decodeAux_entries (es : List Entry) (rs : List Record) :
    decodeAux (es.map .entry ++ rs) = (es ++ (decodeAux rs).1, (decodeAux rs).2) := by
  induction es with
  | nil => rfl
  | cons e es ih => simp [decodeAux, ih]

theorem decodeAux_lists (ls : List (ListKind × List Entry)) (rs : List Record)
    (h : (decodeAux rs).1 = []) :
    decodeAux (ls.flatMap encodeList ++ rs) = ([], ls ++ (decodeAux rs).2.1, (decodeAux rs).2.2) := by
  induction ls with
  | nil => exact Prod.ext h rfl
  | cons l ls ih =>
    have hs : (l :: ls).flatMap encodeList ++ rs =
        .listStart l.1 :: (l.2.map .entry ++ (ls.flatMap encodeList ++ rs)) := by
      simp [encodeList]
    rw [hs, decodeAux, decodeAux_entries, ih]
    simp

theorem decodeAux_objects (os : List OSMObject) :
    decodeAux (os.flatMap OSMObject.encode) = ([], [], os) := by
  induction os with
  | nil => rfl
  | cons o os ih =>
    have hs : (o :: os).flatMap OSMObject.encode =
        .object o.type o.header :: (o.lists.flatMap encodeList ++ os.flatMap OSMObject.encode) := by
      simp [OSMObject.encode]
    rw [hs, decodeAux, decodeAux_lists _ _ (by rw [ih]), ih]
    simp

theorem decode_encode (os : List OSMObject) : decode (os.flatMap OSMObject.encode) = os := by
  simp [decode, decodeAux_objects]

/-- A buffer: the committed records and those written since the last `commit()`. -/
structure Buffer where
  committed : List Record
  pending : List Record
  deriving DecidableEq, Repr

def Buffer.empty : Buffer := ⟨[], []⟩

def Buffer.write (b : Buffer) (r : Record) : Buffer := { b with pending := b.pending ++ [r] }

def Buffer.writeAll (b : Buffer) (rs : List Record) : Buffer := { b with pending := b.pending ++ rs }

def Buffer.commit (b : Buffer) : Buffer := ⟨b.committed ++ b.pending, []⟩

@[simp] theorem Buffer.write_committed (b : Buffer) (r : Record) :
    (b.write r).committed = b.committed := rfl
@[simp] theorem Buffer.write_pending (b : Buffer) (r : Record) :
    (b.write r).pending = b.pending ++ [r] := rfl
@[simp] theorem Buffer.writeAll_committed (b : Buffer) (rs : List Record) :
    (b.writeAll rs).committed = b.committed := rfl
@[simp] theorem Buffer.writeAll_pending (b : Buffer) (rs : List Record) :
    (b.writeAll rs).pending = b.pending ++ rs := rfl
@[simp] theorem Buffer.writeAll_writeAll (b : Buffer) (rs ss : List Record) :
    (b.writeAll rs).writeAll ss = b.writeAll (rs ++ ss) := by
  simp [Buffer.writeAll, List.append_assoc]
@[simp] theorem Buffer.writeAll_nil (b : Buffer) : b.writeAll [] = b := by simp [Buffer.writeAll]
@[simp] theorem Buffer.commit_committed (b : Buffer) :
    b.commit.committed = b.committed ++ b.pending := rfl
@[simp] theorem Buffer.commit_pending (b : Buffer) : b.commit.pending = [] := rfl
@[simp] theorem Buffer.empty_committed : Buffer.empty.committed = [] := rfl
@[simp] theorem Buffer.empty_pending : Buffer.empty.pending = [] := rfl

end OsrmNutiteq.Osmium
