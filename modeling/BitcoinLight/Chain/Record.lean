import BitcoinLight.Network

set_option autoImplicit false

/-!
# Block records

A block record is a header placed in the block tree: its height, its hash, and the total work of
the chain that ends at it. The hash is kept beside the header so that look-ups do not hash again;
the proof field `hash_eq` says it is the header's hash, so every record is made by `BlockRecord.new`
or keeps that equation.
-/

namespace BitcoinLight

/-- A header with its height and the work of the chain ending at it. -/
structure BlockRecord where
  height : Nat
  hash : Hash256
  header : Header
  work : Nat
  hash_eq : hash = header.hash

namespace BlockRecord

instance : DecidableEq BlockRecord := fun a b =>
  if h : a.height = b.height ∧ a.hash = b.hash ∧ a.header = b.header ∧ a.work = b.work then
    isTrue (by
      cases a; cases b
      obtain ⟨h1, h2, h3, h4⟩ := h
      simp only at h1 h2 h3 h4
      subst h1 h2 h3 h4
      rfl)
  else isFalse (by intro e; subst e; exact h ⟨rfl, rfl, rfl, rfl⟩)

def new (header : Header) (height work : Nat) : BlockRecord :=
  ⟨height, header.hash, header, work, rfl⟩

def prevHash (r : BlockRecord) : Hash256 := r.header.prevHash

def timestamp (r : BlockRecord) : UInt32 := r.header.timestamp

def bits (r : BlockRecord) : UInt32 := r.header.bits

def genesis (p : Params) : BlockRecord := new p.genesis 0 (Work.blockProof p.genesis.bits)

def child (r : BlockRecord) (header : Header) : BlockRecord :=
  new header (r.height + 1) (Work.addWork r.work (Work.blockProof header.bits))

/-- The records of `headers` built one on another from this one, oldest first. -/
def descendants (r : BlockRecord) : List Header → List BlockRecord
  | [] => []
  | h :: rest =>
    let c := r.child h
    c :: c.descendants rest

def withWork (r : BlockRecord) (work : Nat) : BlockRecord := { r with work }

@[simp] theorem new_hash (header : Header) (height work : Nat) :
    (new header height work).hash = header.hash := rfl

@[simp] theorem child_height (r : BlockRecord) (header : Header) :
    (r.child header).height = r.height + 1 := rfl

@[simp] theorem child_header (r : BlockRecord) (header : Header) :
    (r.child header).header = header := rfl

@[simp] theorem withWork_hash (r : BlockRecord) (w : Nat) : (r.withWork w).hash = r.hash := rfl

@[simp] theorem withWork_height (r : BlockRecord) (w : Nat) : (r.withWork w).height = r.height :=
  rfl

@[simp] theorem withWork_prevHash (r : BlockRecord) (w : Nat) :
    (r.withWork w).prevHash = r.prevHash := rfl

@[simp] theorem withWork_bits (r : BlockRecord) (w : Nat) : (r.withWork w).bits = r.bits := rfl

@[simp] theorem withWork_work (r : BlockRecord) (w : Nat) : (r.withWork w).work = w := rfl

@[simp] theorem withWork_self (r : BlockRecord) : r.withWork r.work = r := rfl

@[simp] theorem withWork_withWork (r : BlockRecord) (a b : Nat) :
    (r.withWork a).withWork b = r.withWork b := rfl

end BlockRecord

end BitcoinLight
