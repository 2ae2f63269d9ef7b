import Mathlib.Data.List.Perm.Subperm
import Mathlib.Logic.Relation
import GaussKernel.Lib.Circular
import GaussKernel.Undo.Ptr

/-!
# The cache of slot buffers

Model of `UndoSlotBufferCache`. Its entries are the elements of a hash table, addressed by numbers; an element that is
removed is the next one to be handed out (`dynahash.cpp`). The entries are linked to a ring from the second one on, and a
clock hand `victim_` walks the ring for an entry to evict. A pointer that is followed and is `NULL` gives `none`.
-/

namespace GaussKernel.Undo
open Lib
open Function (update update_self update_of_ne)

/-- `MAKE_UNDO_PTR_ALIGN` -/
def makeUndoPtrAlign (urp : Nat) : Nat :=
  ((undoPtrGetZoneId urp <<< undoLogOffsetBits) % 2 ^ 64) ||| (undoPtrGetBlockNum urp * blcksz)

/-! ## Entries -/

abbrev Addr := Nat

structure UndoSlotBuffer where
  blk : Nat
  buffer : Nat
  info : Nat

def UndoSlotBuffer.init : UndoSlotBuffer := ⟨0xFFFFFFFF, 0, 0⟩

structure SlotBufferCacheEntry where
  tag : Nat
  buf : UndoSlotBuffer
  hit : Bool
  prev : Option Addr
  next : Option Addr

def SlotBufferCacheEntry.new : SlotBufferCacheEntry := ⟨0, UndoSlotBuffer.init, false, none, none⟩

abbrev EntryMem := Addr → SlotBufferCacheEntry

namespace EntryMem

variable (m : EntryMem) (a b : Addr)

def setHit (hit : Bool) : EntryMem := update m a { m a with hit := hit }

def setNext (next : Option Addr) : EntryMem := update m a { m a with next := next }

def setPrev (prev : Option Addr) : EntryMem := update m a { m a with prev := prev }

def links : Links Addr := ⟨fun a => (m a).next, fun a => (m a).prev⟩

lemma apply_update {α : Type} (f : SlotBufferCacheEntry → α) (x : SlotBufferCacheEntry) :
    (fun b => f (update m a x b)) = update (fun b => f (m b)) a (f x) := by
  funext b
  exact Function.apply_update (fun _ => f) m a x b

lemma links_update (x : SlotBufferCacheEntry) :
    links (update m a x) = (m.links.setNext a x.next).setPrev a x.prev := by
  unfold links
  rw [apply_update, apply_update]
  rfl

@[simp] lemma links_setNext (next : Option Addr) : (m.setNext a next).links = m.links.setNext a next := by
  unfold setNext links
  rw [apply_update, apply_update, Function.update_eq_self_iff.mpr rfl]
  rfl

@[simp] lemma links_setPrev (prev : Option Addr) : (m.setPrev a prev).links = m.links.setPrev a prev := by
  unfold setPrev links
  rw [apply_update, apply_update, Function.update_eq_self_iff.mpr rfl]
  rfl

@[simp] lemma setNext_tag (next : Option Addr) : (m.setNext a next b).tag = (m b).tag := by
  rw [setNext, congrFun (apply_update m a SlotBufferCacheEntry.tag _) b, Function.update_eq_self_iff.mpr rfl]

@[simp] lemma setPrev_tag (prev : Option Addr) : (m.setPrev a prev b).tag = (m b).tag := by
  rw [setPrev, congrFun (apply_update m a SlotBufferCacheEntry.tag _) b, Function.update_eq_self_iff.mpr rfl]

@[simp] lemma setNext_prev (next : Option Addr) : (m.setNext a next b).prev = (m b).prev := by
  rw [setNext, congrFun (apply_update m a SlotBufferCacheEntry.prev _) b, Function.update_eq_self_iff.mpr rfl]

end EntryMem

/-! ## Cache -/

/-- `UndoSlotBufferCache` with its hash table: the elements in use, the free ones in the order in which they are handed
out, and the number of elements allocated so far. -/
structure UndoSlotBufferCache where
  mem : EntryMem
  elements : List Addr
  freeList : List Addr
  allocated : Nat
  nelemAlloc : Nat
  head : Option Addr
  tail : Option Addr
  victim : Option Addr
  size : Nat
  capacity : Int

namespace UndoSlotBufferCache

variable (c : UndoSlotBufferCache)

/-- `element_alloc`: the last of the new elements is handed out first. -/
def elementAlloc (nelem : Nat) : UndoSlotBufferCache :=
  { c with freeList := (List.range' c.allocated nelem).reverse ++ c.freeList, allocated := c.allocated + nelem }

def getHashEntry : Option (Addr × UndoSlotBufferCache) :=
  let c := if c.freeList = [] then c.elementAlloc c.nelemAlloc else c
  match c.freeList with
  | [] => none
  | e :: rest => some (e, { c with freeList := rest })

/-- `hash_search` with `HASH_FIND` -/
def hashFind (ptr : Nat) : Option Addr := c.elements.find? fun a => (c.mem a).tag == ptr

/-- `hash_search` with `HASH_ENTER` of a key that is not in the table -/
def hashEnter (ptr : Nat) : Option (Addr × UndoSlotBufferCache) := do
  let (e, c) ← c.getHashEntry
  some (e, { c with elements := e :: c.elements, mem := update c.mem e { c.mem e with tag := ptr } })

/-- `hash_search` with `HASH_REMOVE` -/
def hashRemove (ptr : Nat) : Option (Addr × UndoSlotBufferCache) := do
  let e ← c.hashFind ptr
  some (e, { c with elements := c.elements.erase e, freeList := e :: c.freeList })

/-- The constructor; `hash_create` allocates the elements of a small table at once, and `capacity_` is an `int`. -/
def create (capacity nelemAlloc : Nat) : UndoSlotBufferCache :=
  let c : UndoSlotBufferCache :=
    { mem := fun _ => SlotBufferCacheEntry.new
      elements := []
      freeList := []
      allocated := 0
      nelemAlloc := nelemAlloc
      head := none
      tail := none
      victim := none
      size := 0
      capacity := (BitVec.ofNat 32 capacity).toInt }
  if capacity < nelemAlloc then c.elementAlloc (max capacity 1) else c

def removeSlotBuffer (slotPtr : Nat) : Option UndoSlotBufferCache := do
  let ptr := makeUndoPtrAlign slotPtr
  let (entry, c) ← c.hashRemove ptr
  let prev := (c.mem entry).prev
  let next := (c.mem entry).next
  let c := if c.head = some entry then { c with head := (c.mem entry).next } else c
  let c := if c.tail = some entry then { c with tail := (c.mem entry).prev } else c
  let c := match prev with
    | some p => { c with mem := c.mem.setNext p (c.mem entry).next }
    | none => c
  let c := match next with
    | some n => { c with mem := c.mem.setPrev n (c.mem entry).prev }
    | none => c
  some { c with size := c.size - 1 }

/-- The loop of `VictimSlotBuffer` from `entry` on. No entry is passed twice with its `hit_` set. -/
def victimLoop (victim : Addr) : (fuel : Nat) → UndoSlotBufferCache → (entry : Addr) → Option UndoSlotBufferCache
  | 0, _, _ => none
  | fuel + 1, c, entry =>
    if (c.mem entry).hit then
      let c := { c with mem := c.mem.setHit entry false }
      match (c.mem entry).next with
      | none => none
      | some next =>
        if next = victim then do
          let tail ← c.tail
          c.removeSlotBuffer (c.mem tail).tag
        else victimLoop victim fuel c next
    else c.removeSlotBuffer (c.mem entry).tag

def victimSlotBuffer : Option UndoSlotBufferCache := do
  let victim ← c.victim
  victimLoop victim (c.allocated + 1) c victim

def insertSlotBuffer (ptr : Nat) : Option (Addr × UndoSlotBufferCache) := do
  let (entry, c) ← c.hashEnter ptr
  let new : SlotBufferCacheEntry :=
    { tag := ptr, buf := UndoSlotBuffer.init, hit := false, prev := c.tail, next := c.head }
  let c := { c with mem := update c.mem entry new }
  match c.head, c.tail with
  | none, none => some (entry, { c with head := entry, tail := entry, victim := entry, size := c.size + 1 })
  | some h, some t =>
    let c := { c with mem := c.mem.setPrev h entry }
    let c := { c with mem := c.mem.setNext t entry }
    some (entry, { c with head := entry, size := c.size + 1 })
  -- one of the two is NULL: an error is reported
  | _, _ => none

/-- The entry whose buffer is returned, and the cache. -/
def fetchTransactionBuffer (slotPtr : Nat) : Option (Addr × UndoSlotBufferCache) :=
  let ptr := makeUndoPtrAlign slotPtr
  match c.hashFind ptr with
  | some entry => some (entry, { c with mem := c.mem.setHit entry true })
  | none => do
    let c ← if c.capacity ≤ c.size then c.victimSlotBuffer else some c
    c.insertSlotBuffer ptr

/-! ## Calls -/

inductive Call where
  | fetch (slotPtr : Nat)
  | remove (slotPtr : Nat)

def call : Call → Option UndoSlotBufferCache
  | .fetch slotPtr => (c.fetchTransactionBuffer slotPtr).map Prod.snd
  | .remove slotPtr => c.removeSlotBuffer slotPtr

/-- A pointer that is removed is in the cache. -/
def Present : Call → Prop
  | .fetch _ => True
  | .remove slotPtr => c.hashFind (makeUndoPtrAlign slotPtr) ≠ none

def run (calls : List Call) : Option UndoSlotBufferCache := calls.foldlM call c

/-! ## What is represented -/

/-- The entries reached by `next_` from `head_`. -/
def Reached (a : Addr) : Prop :=
  ∃ h, c.head = some h ∧ Relation.ReflTransGen (fun a b => (c.mem a).next = some b) h a

structure Represented : Prop where
  reached : ∀ a, c.Reached a ↔ a ∈ c.elements
  each_once : ∃ l : List Addr, l.Nodup ∧ l.Perm c.elements ∧ l.head? = c.head ∧ l.getLast? = c.tail ∧
    l.IsChain fun a b => (c.mem a).next = some b
  size_eq : c.size = c.elements.length
  size_le : c.size ≤ c.capacity
  next_prev : ∀ a ∈ c.elements, ∀ b, (c.mem a).next = some b → b ∈ c.elements ∧ (c.mem b).prev = some a
  prev_next : ∀ a ∈ c.elements, ∀ b, (c.mem a).prev = some b → b ∈ c.elements ∧ (c.mem b).next = some a
  head_none : c.head = none ↔ c.elements = []
  tail_none : c.tail = none ↔ c.elements = []
  victim : c.elements ≠ [] → ∃ v ∈ c.elements, c.victim = some v

/-- What a call must not do: remove the entry at the clock hand while others stay; remove the last entry of a ring; evict
a lone entry that was hit. -/
def Safe : Call → Prop
  | .fetch slotPtr => c.hashFind (makeUndoPtrAlign slotPtr) ≠ none ∨ c.size < c.capacity ∨ 1 < c.capacity ∨
      ∀ v, c.victim = some v → (c.mem v).hit = false
  | .remove slotPtr => (1 < c.size ∧ c.hashFind (makeUndoPtrAlign slotPtr) ≠ c.victim) ∨
      c.size = 1 ∧ ∀ e, c.head = some e → (c.mem e).next = none

/-- The caches that safe calls lead to. -/
inductive SafeRun (capacity nelemAlloc : Nat) : UndoSlotBufferCache → Prop
  | create : SafeRun capacity nelemAlloc (create capacity nelemAlloc)
  | call {c c' : UndoSlotBufferCache} {k : Call} (run : SafeRun capacity nelemAlloc c) (present : c.Present k)
      (safe : c.Safe k) (step : c.call k = some c') : SafeRun capacity nelemAlloc c'

/-! ## Links -/

/-- The links from `head_` to `tail_`: none, a lone entry without links, or a ring. -/
inductive Shape (ln : Links Addr) : (head tail : Option Addr) → List Addr → Prop
  | empty : Shape ln none none []
  | alone {e : Addr} (next : ln.next e = none) (prev : ln.prev e = none) : Shape ln (some e) (some e) [e]
  | ring {a t : Addr} {l : List Addr} (circular : Circular ln a l) (last : (a :: l).getLast? = some t) :
      Shape ln (some a) (some t) (a :: l)

variable {ln ln' : Links Addr} {head tail : Option Addr} {a b e p n t : Addr} {l l' : List Addr}

section

variable (h : Shape ln head tail l)
include h

lemma Shape.nodup : l.Nodup := by
  cases h with
  | empty => exact List.nodup_nil
  | alone => exact List.nodup_singleton _
  | ring h => exact h.nodup

lemma Shape.head?_eq : l.head? = head := by
  cases h with
  | empty => rfl
  | alone => rfl
  | ring => rfl

lemma Shape.getLast?_eq : l.getLast? = tail := by
  cases h with
  | empty => rfl
  | alone => rfl
  | ring _ hlast => exact hlast

lemma Shape.isChain : l.IsChain fun a b => ln.next a = some b := by
  cases h with
  | empty => exact .nil
  | alone => exact .singleton _
  | ring h =>
    have := h.joined
    rw [← List.cons_append] at this
    exact this.left_of_append.imp fun _ _ h => h.1

/-- Every link stays in the list and is answered. -/
lemma Shape.next_prev (ha : a ∈ l) (hnext : ln.next a = some b) : b ∈ l ∧ ln.prev b = some a := by
  cases h with
  | empty => cases ha
  | alone hnone =>
    cases List.mem_singleton.mp ha
    cases hnone.symm.trans hnext
  | ring h =>
    obtain ⟨front, back, hl⟩ := List.append_of_mem ha
    obtain ⟨n, -, hn, hjoined, -⟩ := h.exists_next hl
    cases hjoined.1.symm.trans hnext
    exact ⟨hn, hjoined.2⟩

lemma Shape.prev_next (ha : a ∈ l) (hprev : ln.prev a = some b) : b ∈ l ∧ ln.next b = some a := by
  cases h with
  | empty => cases ha
  | alone _ hnone =>
    cases List.mem_singleton.mp ha
    cases hnone.symm.trans hprev
  | @ring head t l h =>
    -- the ring seen from `a`: what stands before it is the last
    obtain ⟨l', h', hperm⟩ : ∃ l', Circular ln a l' ∧ ∀ b, b ∈ a :: l' → b ∈ head :: l := by
      rcases List.mem_cons.mp ha with rfl | ha
      · exact ⟨l, h, fun b hb => hb⟩
      · obtain ⟨front, back, rfl⟩ := List.append_of_mem ha
        refine ⟨_, h.rotate, fun b hb => ?_⟩
        simp only [List.mem_cons, List.mem_append] at hb ⊢
        tauto
    obtain ⟨pre, p, hlast⟩ : ∃ pre p, a :: l' = pre ++ [p] :=
      ⟨_, _, (List.dropLast_concat_getLast (List.cons_ne_nil a l')).symm⟩
    have hw : a :: (l' ++ [a]) = pre ++ p :: a :: [] := by
      rw [← List.cons_append, hlast, List.append_assoc]
      rfl
    have hjoined := h'.joined_at hw
    cases hjoined.2.symm.trans hprev
    exact ⟨hperm b (hlast ▸ List.mem_append_right _ List.mem_cons_self), hjoined.1⟩

lemma Shape.of_next_none (he : e ∈ l) (hnext : ln.next e = none) :
    l = [e] ∧ ln.prev e = none ∧ head = some e ∧ tail = some e := by
  cases h with
  | empty => cases he
  | alone _ hprev =>
    cases List.mem_singleton.mp he
    exact ⟨rfl, hprev, rfl, rfl⟩
  | ring h =>
    obtain ⟨front, back, hl⟩ := List.append_of_mem he
    obtain ⟨n, -, -, hjoined, -⟩ := h.exists_next hl
    cases hjoined.1.symm.trans hnext

end

/-- A new entry before the head of a list that is not empty. -/
lemma Shape.insert (h : Shape ln (some a) (some t) l) (he : e ∉ l) :
    Shape (((ln.setNext e (some a)).setPrev e (some t)).setPrev a (some e) |>.setNext t (some e)) (some e) (some t)
      (e :: l) := by
  have ha : a ∈ l := List.mem_of_mem_head? h.head?_eq
  have ht : t ∈ l := List.mem_of_getLast? h.getLast?_eq
  have hae : a ≠ e := fun heq => he (heq ▸ ha)
  have hte : t ≠ e := fun heq => he (heq ▸ ht)
  generalize hln : ((((ln.setNext e (some a)).setPrev e (some t)).setPrev a (some e)).setNext t (some e)) = ln'
  have hnexte : ln'.next e = some a := by
    subst hln
    exact (update_of_ne hte.symm _ _).trans (update_self _ _ _)
  have hpreve : ln'.prev e = some t := by
    subst hln
    exact (update_of_ne hae.symm _ _).trans (update_self _ _ _)
  have hnextt : ln'.next t = some e := by
    subst hln
    exact update_self _ _ _
  have hpreva : ln'.prev a = some e := by
    subst hln
    exact update_self _ _ _
  cases h with
  | alone =>
    refine .ring ⟨?_, ?_⟩ rfl
    · exact List.isChain_cons_cons.mpr ⟨⟨hnexte, hpreva⟩, List.isChain_cons_cons.mpr ⟨⟨hnextt, hpreve⟩, .singleton e⟩⟩
    · exact List.nodup_cons.mpr ⟨he, List.nodup_singleton _⟩
  | @ring _ _ l h hlast =>
    have hlast' : (e :: a :: l).getLast? = some t := by
      rw [List.getLast?_cons_cons, hlast]
    refine .ring (Circular.rotate_iff.mpr ?_) hlast'
    obtain ⟨front, hfront⟩ : ∃ front, a :: l = front ++ [t] := List.getLast?_eq_some_iff.mp hlast
    have hw : a :: (l ++ [a]) = front ++ t :: a :: [] := by
      rw [← List.cons_append, hfront, List.append_assoc]
      rfl
    have hw' : a :: ((l ++ [e]) ++ [a]) = front ++ t :: e :: a :: [] := by
      rw [← List.cons_append, ← List.cons_append, hfront, List.append_assoc, List.append_assoc]
      rfl
    have hnodup : (a :: (l ++ [e])).Nodup := by
      rw [← List.cons_append]
      exact List.nodup_append.mpr ⟨h.nodup, List.nodup_singleton e, fun b hb c hc hbc => he (by
        rwa [← List.mem_singleton.mp hc, ← hbc])⟩
    refine h.insert hw hw' hnodup ⟨hnextt, hpreve⟩ ⟨hnexte, hpreva⟩ (fun b hb hbt => ?_) fun b hb hba => ?_
    · have hbe : b ≠ e := fun heq => he (heq ▸ hb)
      subst hln
      exact (update_of_ne hbt _ _).trans (update_of_ne hbe _ _)
    · have hbe : b ≠ e := fun heq => he (heq ▸ hb)
      subst hln
      exact (update_of_ne hba _ _).trans (update_of_ne hbe _ _)

/-- The links of `e` are taken out, and those of its neighbours point past it. -/
lemma joined_unlink :
    let ln' := (ln.setNext p (some n)).setPrev n (some p)
    Joined ln' p n ∧ (∀ b, b ≠ p → b ≠ e → ln'.next b = ln.next b) ∧ ∀ b, b ≠ n → b ≠ e → ln'.prev b = ln.prev b :=
  ⟨⟨update_self _ _ _, update_self _ _ _⟩, fun _ hbp _ => update_of_ne hbp _ _,
    fun _ hbn _ => update_of_ne hbn _ _⟩

/-- One of two or more entries is unlinked. -/
lemma Shape.erase (h : Shape ln head tail l) (he : e ∈ l) (hlen : 1 < l.length) :
    ∃ p n l', ln.prev e = some p ∧ ln.next e = some n ∧ l.Perm (e :: l') ∧
      Shape ((ln.setNext p (some n)).setPrev n (some p)) (if head = some e then some n else head)
        (if tail = some e then some p else tail) l' := by
  cases h with
  | empty => cases he
  | alone => cases Nat.lt_irrefl 1 hlen
  | @ring a t l h hlast =>
    have hnodup := h.nodup
    by_cases hea : e = a
    · -- the head goes, and the ring is seen from the entry after it
      subst hea
      cases l with
      | nil => cases Nat.lt_irrefl 1 hlen
      | cons b l =>
        rw [List.getLast?_cons_cons] at hlast
        obtain ⟨p, n, hp, hn, hpe, hne, hjp, hjn, hrest⟩ := (Circular.rotate_iff.mp h).erase
        cases hn
        cases hlast.symm.trans hp
        refine ⟨t, b, b :: l, hjp.2, hjn.1, List.Perm.refl _, ?_⟩
        rw [if_pos rfl, if_neg fun heq => hpe (Option.some.inj heq)]
        have hjoined := @joined_unlink ln e t b
        have := hrest _ hjoined.1 (fun b _ => hjoined.2.1 b) fun b _ => hjoined.2.2 b
        rw [List.append_nil] at this
        exact .ring this hlast
    · obtain ⟨front, back, rfl⟩ := List.append_of_mem (List.mem_of_ne_of_mem hea he)
      obtain ⟨p, n, hp, hn, hpe, hne, hjp, hjn, hrest⟩ := h.erase
      refine ⟨p, n, a :: (front ++ back), hjp.2, hjn.1, ?_, ?_⟩
      · exact (List.perm_middle.cons a).trans (List.Perm.swap e a _)
      · have hjoined := @joined_unlink ln e p n
        have hcircular := hrest _ hjoined.1 (fun b _ => hjoined.2.1 b) fun b _ => hjoined.2.2 b
        rw [if_neg fun heq => hea (Option.some.inj heq).symm]
        cases back with
        | nil =>
          rw [← List.cons_append, List.getLast?_concat] at hlast
          rw [if_pos hlast.symm]
          refine .ring hcircular ?_
          rw [List.append_nil, hp]
        | cons b back =>
          rw [← List.cons_append, List.getLast?_append_of_ne_nil _ (List.cons_ne_nil e _),
            List.getLast?_cons_cons] at hlast
          have hte : t ≠ e := by
            intro heq
            rw [← List.cons_append] at hnodup
            exact (List.nodup_cons.mp (List.nodup_append.mp hnodup).2.1).1 (heq ▸ List.mem_of_getLast? hlast)
          rw [if_neg fun heq => hte (Option.some.inj heq)]
          refine .ring hcircular ?_
          rw [← List.cons_append, List.getLast?_append_of_ne_nil _ (List.cons_ne_nil b _), hlast]

/-! ## The invariant -/

/-- The table, the free elements and the list agree. -/
structure Cells (c : UndoSlotBufferCache) (l : List Addr) : Prop where
  shape : Shape c.mem.links c.head c.tail l
  perm : l.Perm c.elements
  size_eq : c.size = l.length
  size_le : c.size ≤ c.capacity
  tag_inj : ∀ a ∈ l, ∀ b ∈ l, (c.mem a).tag = (c.mem b).tag → a = b
  aligned : ∀ a ∈ l, makeUndoPtrAlign (c.mem a).tag = (c.mem a).tag
  nodup : (c.freeList ++ l).Nodup
  below : ∀ a ∈ c.freeList ++ l, a < c.allocated
  alloc : 0 < c.nelemAlloc
  alone : ∀ a, l = [a] → (c.mem a).next ≠ none → 1 < c.capacity

def HasVictim (c : UndoSlotBufferCache) : Prop := c.elements ≠ [] → ∃ v ∈ c.elements, c.victim = some v

variable {c d : UndoSlotBufferCache} {ptr : Nat}

lemma Cells.represented (h : Cells c l) (hv : c.HasVictim) : c.Represented where
  reached a := by
    rw [← h.perm.mem_iff]
    constructor
    · rintro ⟨x, hx, hreach⟩
      induction hreach with
      | refl => exact List.mem_of_mem_head? (h.shape.head?_eq.trans hx)
      | tail _ hstep ih => exact (h.shape.next_prev ih hstep).1
    · intro ha
      have hhead := h.shape.head?_eq
      cases l with
      | nil => cases ha
      | cons x l =>
        have hchain : (x :: l).IsChain (Relation.ReflTransGen fun a b => (c.mem a).next = some b) :=
          h.shape.isChain.imp fun _ _ => .single
        refine ⟨x, hhead.symm, ?_⟩
        rcases List.mem_cons.mp ha with rfl | ha
        · exact .refl
        · exact hchain.rel_cons ha
  each_once := ⟨l, h.shape.nodup, h.perm, h.shape.head?_eq, h.shape.getLast?_eq, h.shape.isChain⟩
  size_eq := h.size_eq.trans h.perm.length_eq
  size_le := h.size_le
  next_prev a ha b hb := by
    rw [← h.perm.mem_iff] at ha ⊢
    exact h.shape.next_prev ha hb
  prev_next a ha b hb := by
    rw [← h.perm.mem_iff] at ha ⊢
    exact h.shape.prev_next ha hb
  head_none := by
    rw [← h.shape.head?_eq, List.head?_eq_none_iff, ← List.perm_nil, h.perm.congr_left, List.perm_nil]
  tail_none := by
    rw [← h.shape.getLast?_eq, List.getLast?_eq_none_iff, ← List.perm_nil, h.perm.congr_left, List.perm_nil]
  victim := hv

lemma Cells.hashFind_eq_some (h : Cells c l) : c.hashFind ptr = some a ↔ a ∈ l ∧ (c.mem a).tag = ptr := by
  unfold hashFind
  constructor
  · intro hfind
    have htag := List.find?_some hfind
    exact ⟨h.perm.mem_iff.mpr (List.mem_of_find?_eq_some hfind), beq_iff_eq.mp htag⟩
  · rintro ⟨ha, rfl⟩
    cases hfind : c.elements.find? fun b => (c.mem b).tag == (c.mem a).tag with
    | none => cases List.find?_eq_none.mp hfind a (h.perm.mem_iff.mp ha) (beq_self_eq_true _)
    | some b =>
      have hb := h.perm.mem_iff.mpr (List.mem_of_find?_eq_some hfind)
      have htag := List.find?_some hfind
      rw [h.tag_inj b hb a ha (beq_iff_eq.mp htag)]

lemma Cells.hashFind_eq_none (h : Cells c l) : c.hashFind ptr = none ↔ ∀ a ∈ l, (c.mem a).tag ≠ ptr := by
  unfold hashFind
  rw [List.find?_eq_none]
  constructor
  · intro hfind a ha htag
    exact hfind a (h.perm.mem_iff.mp ha) (beq_iff_eq.mpr htag)
  · intro hne a ha htag
    exact hne a (h.perm.mem_iff.mpr ha) (beq_iff_eq.mp htag)

lemma makeUndoPtrAlign_idem (urp : Nat) : makeUndoPtrAlign (makeUndoPtrAlign urp) = makeUndoPtrAlign urp := by
  have heq : ∀ urp, makeUndoPtrAlign urp = makeUndoPtr (urp / 2 ^ 44 % 2 ^ 20) (urp % 2 ^ 44 / 8192 * 8192) := by
    intro urp
    have hshift : (urp / 2 ^ 44) <<< 44 % 2 ^ 64 = (urp / 2 ^ 44 % 2 ^ 20) <<< 44 % 2 ^ 64 := by
      rw [Nat.shiftLeft_eq, Nat.shiftLeft_eq]
      omega
    rw [makeUndoPtrAlign, getZoneId_eq, undoPtrGetBlockNum, getOffset_eq, makeUndoPtr, hshift]
  have hzone : urp / 2 ^ 44 % 2 ^ 20 < 2 ^ 20 := Nat.mod_lt _ (by decide)
  have hoffset : urp % 2 ^ 44 / 8192 * 8192 < 2 ^ 44 := by omega
  rw [heq urp, heq (makeUndoPtr _ _), ← getZoneId_eq, ← getOffset_eq (makeUndoPtr _ _),
    getZoneId_make_of_lt hzone hoffset,
    getOffset_make_of_lt hzone hoffset, Nat.mod_eq_of_lt hzone, Nat.mul_div_cancel _ (by decide)]

/-! ## Bits that were hit -/

/-- Only `hit_` differs. -/
def SameButHits (c d : UndoSlotBufferCache) : Prop :=
  ∃ hits : Addr → Bool, d = { c with mem := fun a => { c.mem a with hit := hits a } }

lemma SameButHits.refl (c : UndoSlotBufferCache) : c.SameButHits c := ⟨fun a => (c.mem a).hit, rfl⟩

lemma SameButHits.setHit (h : SameButHits c d) (a : Addr) (hit : Bool) :
    SameButHits c { d with mem := d.mem.setHit a hit } := by
  obtain ⟨hits, rfl⟩ := h
  refine ⟨update hits a hit, ?_⟩
  congr 1
  funext b
  by_cases hb : b = a
  · subst hb
    simp [EntryMem.setHit]
  · simp [EntryMem.setHit, update_of_ne hb]

lemma SameButHits.next (h : SameButHits c d) (a : Addr) : (d.mem a).next = (c.mem a).next := by
  obtain ⟨hits, rfl⟩ := h
  rfl

lemma SameButHits.tag (h : SameButHits c d) (a : Addr) : (d.mem a).tag = (c.mem a).tag := by
  obtain ⟨hits, rfl⟩ := h
  rfl

lemma SameButHits.rest (h : SameButHits c d) :
    d.elements = c.elements ∧ d.tail = c.tail ∧ d.victim = c.victim ∧ d.capacity = c.capacity := by
  obtain ⟨hits, rfl⟩ := h
  exact ⟨rfl, rfl, rfl, rfl⟩

lemma Cells.sameButHits (h : Cells c l) (hd : SameButHits c d) : Cells d l := by
  obtain ⟨hits, rfl⟩ := hd
  exact ⟨h.shape, h.perm, h.size_eq, h.size_le, h.tag_inj, h.aligned, h.nodup, h.below, h.alloc, h.alone⟩

/-! ## Insertion -/

/-- The element handed out is new to the list, and the first free one if there is one. -/
lemma Cells.getHashEntry (h : Cells c l) :
    ∃ e rest allocated, c.getHashEntry = some (e, { c with freeList := rest, allocated := allocated }) ∧
      (rest ++ e :: l).Nodup ∧ (∀ a ∈ rest ++ e :: l, a < allocated) ∧ ∀ a, c.freeList.head? = some a → a = e := by
  unfold UndoSlotBufferCache.getHashEntry
  cases hfree : c.freeList with
  | cons e rest =>
    have hperm : (c.freeList ++ l).Perm (rest ++ e :: l) := by
      rw [hfree]
      exact List.perm_middle.symm
    refine ⟨e, rest, c.allocated, ?_, hperm.nodup_iff.mp h.nodup, fun a ha => h.below a (hperm.mem_iff.mpr ha), ?_⟩
    · rw [if_neg (List.cons_ne_nil e rest)]
      simp only [hfree]
    · intro a ha
      exact (Option.some.inj ha).symm
  | nil =>
    have hne : (List.range' c.allocated c.nelemAlloc).reverse ≠ [] := by
      rw [Ne, List.reverse_eq_nil_iff, List.range'_eq_nil_iff]
      exact h.alloc.ne'
    obtain ⟨e, rest, hnew⟩ := List.exists_cons_of_ne_nil hne
    have hmem : ∀ a ∈ e :: rest, c.allocated ≤ a ∧ a < c.allocated + c.nelemAlloc := by
      intro a ha
      rw [← hnew, List.mem_reverse, List.mem_range'_1] at ha
      exact ha
    have hperm : (e :: rest ++ l).Perm (rest ++ e :: l) := List.perm_middle.symm
    have hbelow := h.below
    have hnodup := h.nodup
    rw [hfree, List.nil_append] at hbelow hnodup
    refine ⟨e, rest, c.allocated + c.nelemAlloc, ?_, ?_, fun a ha => ?_, fun a ha => nomatch ha⟩
    · rw [if_pos rfl]
      simp only [elementAlloc, hfree, hnew, List.append_nil]
    · refine hperm.nodup_iff.mp (List.nodup_append.mpr ⟨?_, hnodup, ?_⟩)
      · rw [← hnew, List.nodup_reverse]
        exact List.nodup_range'
      · intro a ha b hb hab
        exact Nat.not_lt.mpr (hab ▸ (hmem a ha).1) (hbelow b hb)
    · rcases List.mem_append.mp (hperm.mem_iff.mpr ha) with ha | ha
      · exact (hmem a ha).2
      · exact (hbelow a ha).trans_le (Nat.le_add_right _ _)

/-- The tags once `e` has been given a new one. -/
lemma Cells.tags_insert {m : EntryMem} (h : Cells c l) (he : e ∉ l) (hnew : c.hashFind ptr = none)
    (haligned : makeUndoPtrAlign ptr = ptr) (hm : ∀ a, (m a).tag = if a = e then ptr else (c.mem a).tag) :
    (∀ a ∈ e :: l, ∀ b ∈ e :: l, (m a).tag = (m b).tag → a = b) ∧
      ∀ a ∈ e :: l, makeUndoPtrAlign (m a).tag = (m a).tag := by
  have htag := h.hashFind_eq_none.mp hnew
  have hme : (m e).tag = ptr := by rw [hm, if_pos rfl]
  have hml : ∀ a ∈ l, (m a).tag = (c.mem a).tag := by
    intro a ha
    have hae : a ≠ e := fun heq => he (heq ▸ ha)
    rw [hm, if_neg hae]
  constructor
  · intro a ha b hb hab
    rcases List.mem_cons.mp ha with hae | ha
    · rcases List.mem_cons.mp hb with hbe | hb
      · rw [hae, hbe]
      · rw [hae, hme, hml b hb] at hab
        cases htag b hb hab.symm
    · rcases List.mem_cons.mp hb with hbe | hb
      · rw [hbe, hme, hml a ha] at hab
        cases htag a ha hab
      · rw [hml a ha, hml b hb] at hab
        exact h.tag_inj a ha b hb hab
  · intro a ha
    rcases List.mem_cons.mp ha with hae | ha
    · rw [hae, hme, haligned]
    · rw [hml a ha, h.aligned a ha]

lemma Cells.insertSlotBuffer (h : Cells c l) (hroom : c.size < c.capacity) (hnew : c.hashFind ptr = none)
    (haligned : makeUndoPtrAlign ptr = ptr) :
    ∃ e c', c.insertSlotBuffer ptr = some (e, c') ∧ Cells c' (e :: l) ∧ c'.elements = e :: c.elements ∧
      (∀ a, c.freeList.head? = some a → a = e) ∧ c'.capacity = c.capacity ∧
      c'.victim = if l = [] then some e else c.victim := by
  obtain ⟨e, rest, allocated, hentry, hnodup, hbelow, hfirst⟩ := h.getHashEntry
  have he : e ∉ l := (List.nodup_cons.mp (List.nodup_append.mp hnodup).2.1).1
  have hsize : ((c.size + 1 : Nat) : Int) ≤ c.capacity := by
    push_cast
    omega
  unfold UndoSlotBufferCache.insertSlotBuffer hashEnter
  rw [hentry]
  simp only [Option.bind_eq_bind, Option.bind_some, Function.update_idem]
  have hshape := h.shape
  generalize hhead : c.head = head at hshape ⊢
  generalize htail : c.tail = tail at hshape ⊢
  cases head with
  | none =>
    obtain rfl := List.head?_eq_none_iff.mp hshape.head?_eq
    obtain rfl := hshape.getLast?_eq
    have htags : ∀ a, (update c.mem e ⟨ptr, UndoSlotBuffer.init, false, none, none⟩ a).tag =
        if a = e then ptr else (c.mem a).tag := by
      intro a
      rw [Function.update_apply]
      split <;> rfl
    obtain ⟨hinj, haligns⟩ := h.tags_insert he hnew haligned htags
    refine ⟨e, _, rfl, ⟨.alone ?_ ?_, h.perm.cons e, congrArg (· + 1) h.size_eq, hsize, hinj, haligns, hnodup, hbelow,
      h.alloc, ?_⟩, rfl, hfirst, rfl, rfl⟩
    · simp [EntryMem.links]
    · simp [EntryMem.links]
    · intro a ha hnext
      cases ha
      simp at hnext
  | some x =>
    have hne : l ≠ [] := by
      rintro rfl
      cases hshape
    obtain ⟨y, rfl⟩ : ∃ y, tail = some y := by
      cases tail with
      | none => cases hne (List.getLast?_eq_none_iff.mp hshape.getLast?_eq)
      | some y => exact ⟨y, rfl⟩
    have htags : ∀ a, (((EntryMem.setPrev (update c.mem e ⟨ptr, UndoSlotBuffer.init, false, some y, some x⟩) x
        (some e)).setNext y (some e)) a).tag = if a = e then ptr else (c.mem a).tag := by
      intro a
      rw [EntryMem.setNext_tag, EntryMem.setPrev_tag, Function.update_apply]
      split <;> rfl
    obtain ⟨hinj, haligns⟩ := h.tags_insert he hnew haligned htags
    refine ⟨e, _, rfl, ⟨?_, h.perm.cons e, congrArg (· + 1) h.size_eq, hsize, hinj, haligns, hnodup, hbelow, h.alloc,
      ?_⟩,
      rfl, hfirst, rfl, ?_⟩
    · have hins := hshape.insert he
      dsimp only
      rw [EntryMem.links_setNext, EntryMem.links_setPrev, EntryMem.links_update]
      exact hins
    · intro a ha
      cases hne (List.cons.inj ha).2
    · rw [if_neg hne]

/-! ## Removal -/

variable {slotPtr : Nat}

/-- An entry that is linked on both sides. -/
lemma removeSlotBuffer_linked (hfind : c.hashFind (makeUndoPtrAlign slotPtr) = some e) (hprev : (c.mem e).prev = some p)
    (hnext : (c.mem e).next = some n) :
    c.removeSlotBuffer slotPtr = some { c with
      elements := c.elements.erase e
      freeList := e :: c.freeList
      mem := (c.mem.setNext p (some n)).setPrev n (some p)
      head := if c.head = some e then some n else c.head
      tail := if c.tail = some e then some p else c.tail
      size := c.size - 1 } := by
  unfold UndoSlotBufferCache.removeSlotBuffer hashRemove
  dsimp only
  rw [hfind]
  simp only [Option.bind_eq_bind, Option.bind_some]
  by_cases hhead : c.head = some e <;> by_cases htail : c.tail = some e <;>
    simp [hhead, htail, hprev, hnext]

/-- A lone entry without links. -/
lemma removeSlotBuffer_alone (hfind : c.hashFind (makeUndoPtrAlign slotPtr) = some e) (hprev : (c.mem e).prev = none)
    (hnext : (c.mem e).next = none) (hhead : c.head = some e) (htail : c.tail = some e) :
    c.removeSlotBuffer slotPtr = some { c with
      elements := c.elements.erase e
      freeList := e :: c.freeList
      head := none
      tail := none
      size := c.size - 1 } := by
  unfold UndoSlotBufferCache.removeSlotBuffer hashRemove
  dsimp only
  rw [hfind]
  simp [hhead, htail, hprev, hnext]

/-- What removal leaves, once the links are right. -/
lemma Cells.erase (h : Cells c l) (hperm : l.Perm (e :: l')) {m : EntryMem}
    (hshape : Shape m.links head tail l') (htag : ∀ a, (m a).tag = (c.mem a).tag) :
    Cells { c with
      elements := c.elements.erase e
      freeList := e :: c.freeList
      mem := m
      head := head
      tail := tail
      size := c.size - 1 } l' := by
  have hsub : ∀ a ∈ l', a ∈ l := fun a ha => hperm.mem_iff.mpr (List.mem_cons_of_mem e ha)
  have he : e ∈ c.elements := h.perm.mem_iff.mp (hperm.mem_iff.mpr List.mem_cons_self)
  have hlength : l.length = l'.length + 1 := hperm.length_eq
  have hsize := h.size_eq
  have hle := h.size_le
  have hcells : (c.freeList ++ l).Perm (e :: c.freeList ++ l') := (hperm.append_left c.freeList).trans List.perm_middle
  refine ⟨hshape, ?_, ?_, ?_, fun a ha b hb => ?_, fun a ha => ?_, hcells.nodup_iff.mp h.nodup, fun a ha => ?_,
    h.alloc, ?_⟩
  · exact (hperm.symm.trans (h.perm.trans (List.perm_cons_erase he))).cons_inv
  · dsimp only
    omega
  · dsimp only
    omega
  · rw [htag a, htag b]
    exact h.tag_inj a (hsub a ha) b (hsub b hb)
  · rw [htag a]
    exact h.aligned a (hsub a ha)
  · exact h.below a (hcells.mem_iff.mpr ha)
  · intro a ha _
    rw [ha, List.length_singleton] at hlength
    dsimp only
    omega

lemma Cells.removeSlotBuffer (h : Cells c l) (hfind : c.hashFind (makeUndoPtrAlign slotPtr) = some e)
    (hlen : 1 < l.length ∨ (c.mem e).next = none) :
    ∃ c' l', c.removeSlotBuffer slotPtr = some c' ∧ Cells c' l' ∧ l.Perm (e :: l') ∧ c'.victim = c.victim ∧
      c'.freeList = e :: c.freeList ∧ c'.capacity = c.capacity ∧ ∀ a, (c'.mem a).tag = (c.mem a).tag := by
  have he := (h.hashFind_eq_some.mp hfind).1
  by_cases hmore : 1 < l.length
  · obtain ⟨p, n, l', hprev, hnext, hperm, hshape⟩ := h.shape.erase he hmore
    have htag : ∀ a, (((c.mem.setNext p (some n)).setPrev n (some p)) a).tag = (c.mem a).tag := by simp
    rw [← EntryMem.links_setNext, ← EntryMem.links_setPrev] at hshape
    exact ⟨_, l', removeSlotBuffer_linked hfind hprev hnext, h.erase hperm hshape htag, hperm, rfl, rfl, rfl, htag⟩
  · have hnext := hlen.resolve_left hmore
    obtain ⟨rfl, hprev, hhead, htail⟩ := h.shape.of_next_none he hnext
    exact ⟨_, [], removeSlotBuffer_alone hfind hprev hnext hhead htail,
      h.erase (List.Perm.refl _) .empty fun _ => rfl, List.Perm.refl _, rfl, rfl, rfl, fun _ => rfl⟩

/-! ## Eviction -/

lemma Cells.hashFind_tag (h : Cells c l) (he : e ∈ l) : c.hashFind (makeUndoPtrAlign (c.mem e).tag) = some e := by
  rw [h.aligned e he]
  exact h.hashFind_eq_some.mpr ⟨he, rfl⟩

/-- A hit entry is passed and loses its `hit_`. -/
lemma victimLoop_hit {v x y : Addr} (fuel : Nat) (hhit : (d.mem x).hit = true) (hnext : (d.mem x).next = some y) :
    UndoSlotBufferCache.victimLoop v (fuel + 1) d x =
      let d := { d with mem := d.mem.setHit x false }
      if y = v then d.tail.bind fun tail => d.removeSlotBuffer (d.mem tail).tag
      else UndoSlotBufferCache.victimLoop v fuel d y := by
  have hnext' : (d.mem.setHit x false x).next = some y := by
    rw [EntryMem.setHit, update_self]
    exact hnext
  rw [UndoSlotBufferCache.victimLoop, if_pos hhit]
  simp only [hnext', Option.bind_eq_bind]

/-- The hand walks on to `v`, and some entry of the list is removed. -/
lemma Cells.victimLoop {v x : Addr} {rest : List Addr} {fuel : Nat} (h : Cells c l) (hd : SameButHits c d)
    (hwalk : (x :: (rest ++ [v])).IsChain fun a b => (c.mem a).next = some b) (hrest : ∀ a ∈ x :: rest, a ∈ l)
    (hv : v ∉ rest) (hfuel : rest.length < fuel) :
    ∃ d' e, SameButHits c d' ∧ e ∈ l ∧
      UndoSlotBufferCache.victimLoop v fuel d x = d'.removeSlotBuffer (d'.mem e).tag := by
  induction rest generalizing d x fuel with
  | nil =>
    obtain ⟨fuel, rfl⟩ := Nat.exists_eq_succ_of_ne_zero (Nat.ne_zero_of_lt hfuel)
    have hx : x ∈ l := hrest x List.mem_cons_self
    have hnext : (d.mem x).next = some v := (hd.next x).trans (List.isChain_cons_cons.mp hwalk).1
    cases hhit : (d.mem x).hit with
    | true =>
      -- back at the hand: the tail goes
      have hl := List.ne_nil_of_mem hx
      have htail : d.tail = some (l.getLast hl) := by
        rw [hd.rest.2.1, ← h.shape.getLast?_eq, List.getLast?_eq_some_getLast hl]
      rw [victimLoop_hit fuel hhit hnext]
      dsimp only
      rw [if_pos rfl]
      exact ⟨_, _, hd.setHit x false, List.getLast_mem hl, congrArg (fun tail => Option.bind tail _) htail⟩
    | false =>
      refine ⟨d, x, hd, hx, ?_⟩
      rw [UndoSlotBufferCache.victimLoop, if_neg (by rw [hhit]; exact Bool.false_ne_true)]
  | cons y rest ih =>
    obtain ⟨fuel, rfl⟩ := Nat.exists_eq_succ_of_ne_zero (Nat.ne_zero_of_lt hfuel)
    have hx : x ∈ l := hrest x List.mem_cons_self
    obtain ⟨hxy, hwalk⟩ := List.isChain_cons_cons.mp hwalk
    have hnext : (d.mem x).next = some y := (hd.next x).trans hxy
    cases hhit : (d.mem x).hit with
    | true =>
      have hyv : y ≠ v := fun heq => hv (heq ▸ List.mem_cons_self)
      rw [victimLoop_hit fuel hhit hnext]
      dsimp only
      rw [if_neg hyv]
      refine ih (hd.setHit x false) hwalk (fun a ha => hrest a (List.mem_cons_of_mem x ha)) ?_ ?_
      · exact fun hmem => hv (List.mem_cons_of_mem y hmem)
      · exact Nat.lt_of_succ_lt_succ hfuel
    | false =>
      refine ⟨d, x, hd, hx, ?_⟩
      rw [UndoSlotBufferCache.victimLoop, if_neg (by rw [hhit]; exact Bool.false_ne_true)]

/-- The ring from any of its entries and back. -/
lemma Shape.walk (h : Shape ln head tail l) (hlen : 1 < l.length) (ha : a ∈ l) :
    ∃ rest, l.Perm (a :: rest) ∧ (a :: (rest ++ [a])).IsChain fun a b => ln.next a = some b := by
  cases h with
  | empty => cases ha
  | alone => cases Nat.lt_irrefl 1 hlen
  | @ring head t l h =>
    rcases List.mem_cons.mp ha with rfl | ha
    · exact ⟨l, List.Perm.refl _, h.joined.imp fun _ _ h => h.1⟩
    · obtain ⟨front, back, rfl⟩ := List.append_of_mem ha
      refine ⟨_, ?_, h.rotate.joined.imp fun _ _ h => h.1⟩
      have hswap : ((head :: front) ++ (a :: back)).Perm ((a :: back) ++ (head :: front)) := List.perm_append_comm
      exact hswap

section

variable (h : Cells c l)
include h

lemma Cells.length_le : l.length ≤ c.allocated := by
  have hsub : l ⊆ List.range c.allocated := fun a ha => List.mem_range.mpr (h.below a (List.mem_append_right _ ha))
  have := (List.subperm_of_subset h.shape.nodup hsub).length_le
  rwa [List.length_range] at this

/-- A full cache loses one entry, and the hand stays or points to the element that is handed out next. -/
lemma Cells.victimSlotBuffer (hv : c.HasVictim) (hl : l ≠ []) (hfull : c.capacity ≤ c.size)
    (hsafe : 1 < c.capacity ∨ ∀ v, c.victim = some v → (c.mem v).hit = false) :
    ∃ c' l', c.victimSlotBuffer = some c' ∧ Cells c' l' ∧ l'.length + 1 = l.length ∧ (∀ a ∈ l', a ∈ l) ∧
      (∀ a, (c'.mem a).tag = (c.mem a).tag) ∧ c'.capacity = c.capacity ∧
      ∃ v, c'.victim = some v ∧ (v ∈ c'.elements ∨ c'.freeList.head? = some v) := by
  have hne : c.elements ≠ [] := by
    intro hnil
    exact hl (List.perm_nil.mp (hnil ▸ h.perm))
  obtain ⟨v, hmem, hvictim⟩ := hv hne
  have hvl := h.perm.mem_iff.mpr hmem
  obtain ⟨d, e, hd, he, hloop⟩ : ∃ d e, SameButHits c d ∧ e ∈ l ∧
      UndoSlotBufferCache.victimLoop v (c.allocated + 1) c v = d.removeSlotBuffer (d.mem e).tag := by
    by_cases hlen : 1 < l.length
    · obtain ⟨rest, hperm, hwalk⟩ := h.shape.walk hlen hvl
      have hnodup := hperm.nodup_iff.mp h.shape.nodup
      have hlength := hperm.length_eq
      have := h.length_le
      refine h.victimLoop (.refl c) hwalk (fun a ha => hperm.mem_iff.mpr ha) (List.nodup_cons.mp hnodup).1 ?_
      rw [List.length_cons] at hlength
      omega
    · have hhit := hsafe.resolve_left (by
        have := h.size_eq
        have := List.length_pos_iff.mpr hl
        omega) v hvictim
      refine ⟨c, v, .refl c, hvl, ?_⟩
      rw [UndoSlotBufferCache.victimLoop, if_neg (by rw [hhit]; exact Bool.false_ne_true)]
  have hlen : 1 < l.length ∨ (d.mem e).next = none := by
    by_contra hcon
    obtain ⟨hlen, hnext⟩ := not_or.mp hcon
    have hlone : l = [e] := by
      cases l with
      | nil => cases he
      | cons x l =>
        cases l with
        | nil => exact congrArg (fun a => [a]) (List.mem_singleton.mp he).symm
        | cons y l => cases hlen (Nat.succ_lt_succ (Nat.succ_pos _))
    have := h.alone e hlone (hd.next e ▸ hnext)
    have := h.size_eq
    rw [hlone, List.length_singleton] at this
    omega
  have hcells := h.sameButHits hd
  obtain ⟨c', l', hremove, h', hperm, hvictim', hfree, hcapacity, htag⟩ :=
    hcells.removeSlotBuffer (hcells.hashFind_tag he) hlen
  refine ⟨c', l', ?_, h', hperm.length_eq.symm, fun a ha => hperm.mem_iff.mpr (List.mem_cons_of_mem e ha), ?_, ?_, v,
    ?_, ?_⟩
  · rw [UndoSlotBufferCache.victimSlotBuffer, hvictim]
    exact hloop.trans hremove
  · exact fun a => (htag a).trans (hd.tag a)
  · exact hcapacity.trans hd.rest.2.2.2
  · rw [hvictim', hd.rest.2.2.1, hvictim]
  · rcases List.mem_cons.mp (hperm.mem_iff.mp hvl) with rfl | hmem
    · exact .inr (by rw [hfree, List.head?_cons])
    · exact .inl (h'.perm.mem_iff.mp hmem)

/-! ## Runs -/

lemma Cells.ne_nil_iff : l ≠ [] ↔ c.elements ≠ [] := by
  rw [Ne, ← List.perm_nil, h.perm.congr_left, List.perm_nil]

/-- After the insertion the hand points to an entry if it did before, or to the element handed out. -/
lemma Cells.insert_victim (hroom : c.size < c.capacity) (hnew : c.hashFind ptr = none)
    (haligned : makeUndoPtrAlign ptr = ptr)
    (hv : c.elements ≠ [] → ∃ v, c.victim = some v ∧ (v ∈ c.elements ∨ c.freeList.head? = some v)) :
    ∃ c' l', (c.insertSlotBuffer ptr).map Prod.snd = some c' ∧ Cells c' l' ∧ c'.HasVictim ∧
      c'.capacity = c.capacity := by
  obtain ⟨e, c', hinsert, h', helements, hfirst, hcapacity, hvictim⟩ := h.insertSlotBuffer hroom hnew haligned
  refine ⟨c', e :: l, by rw [hinsert, Option.map_some], h', fun _ => ?_, hcapacity⟩
  rw [helements, hvictim]
  by_cases hl : l = []
  · rw [if_pos hl]
    exact ⟨e, List.mem_cons_self, rfl⟩
  · obtain ⟨v, hvictim, hmem⟩ := hv (h.ne_nil_iff.mp hl)
    rw [if_neg hl]
    refine ⟨v, ?_, hvictim⟩
    rcases hmem with hmem | hfree
    · exact List.mem_cons_of_mem e hmem
    · exact hfirst v hfree ▸ List.mem_cons_self

lemma Cells.fetchTransactionBuffer (hv : c.HasVictim) (hcap : 1 ≤ c.capacity) (hsafe : c.Safe (.fetch slotPtr)) :
    ∃ c' l', c.call (.fetch slotPtr) = some c' ∧ Cells c' l' ∧ c'.HasVictim ∧ c'.capacity = c.capacity := by
  unfold call UndoSlotBufferCache.fetchTransactionBuffer
  dsimp only
  cases hfind : c.hashFind (makeUndoPtrAlign slotPtr) with
  | some e =>
    have hd := (SameButHits.refl c).setHit e true
    exact ⟨_, l, rfl, h.sameButHits hd, hv, rfl⟩
  | none =>
    by_cases hfull : c.capacity ≤ c.size
    · have hl : l ≠ [] := by
        rintro rfl
        have := h.size_eq
        rw [List.length_nil] at this
        omega
      have hsafe' : 1 < c.capacity ∨ ∀ v, c.victim = some v → (c.mem v).hit = false :=
        (hsafe.resolve_left fun hne => hne hfind).resolve_left (not_lt.mpr hfull)
      obtain ⟨d, l', hevict, hd, hlength, hsub, htag, hcapacity, hvictim⟩ := h.victimSlotBuffer hv hl hfull hsafe'
      have hroom : d.size < d.capacity := by
        have := h.size_le
        have := h.size_eq
        have := hd.size_eq
        omega
      have hnew : d.hashFind (makeUndoPtrAlign slotPtr) = none := by
        rw [hd.hashFind_eq_none]
        intro a ha
        rw [htag a]
        exact h.hashFind_eq_none.mp hfind a (hsub a ha)
      rw [if_pos hfull, hevict]
      rw [← hcapacity]
      exact hd.insert_victim hroom hnew (makeUndoPtrAlign_idem slotPtr) fun _ => hvictim
    · rw [if_neg hfull]
      refine h.insert_victim (not_le.mp hfull) hfind (makeUndoPtrAlign_idem slotPtr) fun hne => ?_
      obtain ⟨v, hmem, hvictim⟩ := hv hne
      exact ⟨v, hvictim, .inl hmem⟩

lemma Cells.remove (hv : c.HasVictim) (hpresent : c.Present (.remove slotPtr)) (hsafe : c.Safe (.remove slotPtr)) :
    ∃ c' l', c.call (.remove slotPtr) = some c' ∧ Cells c' l' ∧ c'.HasVictim ∧ c'.capacity = c.capacity := by
  obtain ⟨e, hfind⟩ := Option.ne_none_iff_exists'.mp hpresent
  have he := (h.hashFind_eq_some.mp hfind).1
  have hsize := h.size_eq
  have hlen : 1 < l.length ∨ (c.mem e).next = none := by
    rcases hsafe with ⟨hmore, -⟩ | ⟨hone, hnext⟩
    · exact .inl (hsize ▸ hmore)
    · obtain ⟨x, rfl⟩ := List.length_eq_one_iff.mp (hsize.symm.trans hone)
      cases List.mem_singleton.mp he
      exact .inr (hnext e h.shape.head?_eq.symm)
  obtain ⟨c', l', hremove, h', hperm, hvictim, hfree, hcapacity, -⟩ := h.removeSlotBuffer hfind hlen
  refine ⟨c', l', hremove, h', fun hne => ?_, hcapacity⟩
  have hlength := hperm.length_eq
  obtain ⟨hmore, hev⟩ : 1 < c.size ∧ c.hashFind (makeUndoPtrAlign slotPtr) ≠ c.victim := by
    rcases hsafe with hsafe | ⟨hone, -⟩
    · exact hsafe
    · have := List.length_pos_iff.mpr (h'.ne_nil_iff.mpr hne)
      rw [List.length_cons] at hlength
      omega
  have hl : l ≠ [] := List.ne_nil_of_mem he
  obtain ⟨v, hmem, hvic⟩ := hv (h.ne_nil_iff.mp hl)
  refine ⟨v, ?_, hvictim.trans hvic⟩
  rcases List.mem_cons.mp (hperm.mem_iff.mp (h.perm.mem_iff.mpr hmem)) with rfl | hmem
  · cases hev (hfind.trans hvic.symm)
  · exact h'.perm.mem_iff.mp hmem

lemma Cells.eq_singleton (he : e ∈ l) (hone : c.size = 1) : l = [e] := by
  obtain ⟨x, rfl⟩ := List.length_eq_one_iff.mp (h.size_eq.symm.trans hone)
  rw [List.mem_singleton.mp he]

lemma Cells.fetch_of_not_safe (hv : c.HasVictim) (hcap : 1 ≤ c.capacity) (hbad : ¬ c.Safe (.fetch slotPtr)) :
    c.call (.fetch slotPtr) = none := by
  simp only [Safe, not_or, not_not, not_lt, not_forall] at hbad
  obtain ⟨hfind, hfull, hcapacity, v, hvictim, hhit⟩ := hbad
  have hone : c.size = 1 := by
    have := h.size_le
    omega
  have hne : l ≠ [] := by
    rintro rfl
    cases hone.symm.trans h.size_eq
  obtain ⟨x, hmem, hx⟩ := hv (h.ne_nil_iff.mp hne)
  cases hvictim.symm.trans hx
  have hl := h.eq_singleton (h.perm.mem_iff.mpr hmem) hone
  have hnext : (c.mem v).next = none := by
    by_contra hnext
    have := h.alone v hl hnext
    omega
  have hnext' : (c.mem.setHit v false v).next = none := by
    rw [EntryMem.setHit, update_self]
    exact hnext
  have hevict : c.victimSlotBuffer = none := by
    rw [UndoSlotBufferCache.victimSlotBuffer, hvictim, Option.bind_eq_bind, Option.bind_some,
      UndoSlotBufferCache.victimLoop, if_pos (Bool.eq_true_of_not_eq_false hhit)]
    simp only [hnext']
  unfold call UndoSlotBufferCache.fetchTransactionBuffer
  simp only [hfind, if_pos hfull, hevict, Option.bind_eq_bind, Option.bind_none, Option.map_none]

lemma Cells.remove_of_not_safe {c' : UndoSlotBufferCache} (hpresent : c.Present (.remove slotPtr))
    (hbad : ¬ c.Safe (.remove slotPtr)) (hcall : c.call (.remove slotPtr) = some c') : ¬ c'.Represented := by
  obtain ⟨e, hfind⟩ := Option.ne_none_iff_exists'.mp hpresent
  have he := (h.hashFind_eq_some.mp hfind).1
  have hl := List.ne_nil_of_mem he
  obtain ⟨hmany, hlone⟩ := not_or.mp hbad
  intro hrep
  by_cases hone : c.size = 1
  · -- the last entry of a ring points to itself
    have hlist := h.eq_singleton he hone
    subst hlist
    have hshape := h.shape
    generalize hhead : c.head = head at hshape
    generalize htail : c.tail = tail at hshape
    cases hshape with
    | alone hnext =>
      refine hlone ⟨hone, fun x hx => ?_⟩
      cases hhead.symm.trans hx
      exact hnext
    | ring hcircular hlast =>
      obtain ⟨hnext, hprev⟩ := Circular.nil_iff.mp hcircular
      have helements : c.elements = [e] := List.perm_singleton.mp h.perm.symm
      have hremove := removeSlotBuffer_linked hfind hprev hnext
      rw [call, hremove] at hcall
      have hnone := (Option.some.inj hcall ▸ hrep).head_none
      rw [helements, List.erase_cons_head, if_pos hhead] at hnone
      cases hnone.mpr rfl
  · have hmore : 1 < c.size := by
      have := h.size_eq
      have := List.length_pos_iff.mpr hl
      omega
    have hvictim : c.victim = some e := by
      by_contra hne
      exact hmany ⟨hmore, fun heq => hne (heq.symm.trans hfind)⟩
    obtain ⟨d, l', hremove, h', hperm, hvictim', -⟩ := h.removeSlotBuffer hfind (.inl (h.size_eq ▸ hmore))
    cases hcall.symm.trans hremove
    have hl' : l' ≠ [] := by
      rintro rfl
      have := h.size_eq
      have := hperm.length_eq
      rw [List.length_singleton] at this
      omega
    obtain ⟨v, hmem, hv⟩ := hrep.victim (h'.ne_nil_iff.mp hl')
    cases hv.symm.trans (hvictim'.trans hvictim)
    exact (List.nodup_cons.mp (hperm.nodup_iff.mp h.shape.nodup)).1 (h'.perm.mem_iff.mpr hmem)

end

variable {capacity nelemAlloc : Nat}

lemma cells_create (hcap : 1 ≤ (create capacity nelemAlloc).capacity) (halloc : 32 ≤ nelemAlloc) :
    Cells (create capacity nelemAlloc) [] := by
  unfold create at hcap ⊢
  have hpos : 0 < nelemAlloc := Nat.lt_of_lt_of_le (by decide) halloc
  dsimp only at hcap ⊢
  split at hcap
  · rename_i hsmall
    rw [if_pos hsmall]
    refine ⟨.empty, List.Perm.refl _, rfl, Int.le_of_lt hcap, fun a ha => (nomatch ha), fun a ha => (nomatch ha), ?_,
      ?_,
      hpos, fun a ha => (nomatch ha)⟩
    · rw [elementAlloc, List.append_nil, List.append_nil, List.nodup_reverse]
      exact List.nodup_range'
    · intro a ha
      rw [elementAlloc, List.append_nil, List.append_nil, List.mem_reverse, List.mem_range'_1] at ha
      exact ha.2
  · rename_i hlarge
    rw [if_neg hlarge]
    exact ⟨.empty, List.Perm.refl _, rfl, Int.le_of_lt hcap, fun a ha => (nomatch ha), fun a ha => (nomatch ha),
      List.nodup_nil, fun a ha => (nomatch ha), hpos, fun a ha => (nomatch ha)⟩

lemma SafeRun.cells (hcap : 1 ≤ (UndoSlotBufferCache.create capacity nelemAlloc).capacity) (halloc : 32 ≤ nelemAlloc)
    (hrun : SafeRun capacity nelemAlloc c) : ∃ l, Cells c l ∧ c.HasVictim ∧ 1 ≤ c.capacity := by
  induction hrun with
  | create =>
    have h := cells_create hcap halloc
    exact ⟨[], h, fun hne => (hne (List.nil_perm.mp h.perm)).elim, hcap⟩
  | @call c c' k _ hpresent hsafe hstep ih =>
    obtain ⟨l, h, hv, hcapacity⟩ := ih
    cases k with
    | fetch slotPtr =>
      obtain ⟨d, l', hcall, h', hv', hsame⟩ := h.fetchTransactionBuffer hv hcapacity hsafe
      cases hstep.symm.trans hcall
      exact ⟨l', h', hv', hsame ▸ hcapacity⟩
    | remove slotPtr =>
      obtain ⟨d, l', hcall, h', hv', hsame⟩ := h.remove hv hpresent hsafe
      cases hstep.symm.trans hcall
      exact ⟨l', h', hv', hsame ▸ hcapacity⟩

/-- Safe calls keep the cache represented, and of the calls that are possible in such a cache no other does. -/
theorem slot_buffer_cache_kept (hcap : 1 ≤ (create capacity nelemAlloc).capacity) (halloc : 32 ≤ nelemAlloc)
    (hrun : SafeRun capacity nelemAlloc c) :
    c.Represented ∧ ∀ k, c.Present k → (c.Safe k ↔ ∃ c', c.call k = some c' ∧ c'.Represented) := by
  obtain ⟨l, h, hv, hcapacity⟩ := hrun.cells hcap halloc
  refine ⟨h.represented hv, fun k hpresent => ⟨fun hsafe => ?_, ?_⟩⟩
  · cases k with
    | fetch slotPtr =>
      obtain ⟨d, l', hcall, h', hv', -⟩ := h.fetchTransactionBuffer hv hcapacity hsafe
      exact ⟨d, hcall, h'.represented hv'⟩
    | remove slotPtr =>
      obtain ⟨d, l', hcall, h', hv', -⟩ := h.remove hv hpresent hsafe
      exact ⟨d, hcall, h'.represented hv'⟩
  · rintro ⟨d, hcall, hrep⟩
    by_contra hbad
    cases k with
    | fetch slotPtr => cases (h.fetch_of_not_safe hv hcapacity hbad).symm.trans hcall
    | remove slotPtr => exact h.remove_of_not_safe hpresent hbad hcall hrep

/-- In a cache of more than one entry fetches are safe. -/
lemma SafeRun.fetches (hcap : 1 ≤ (UndoSlotBufferCache.create capacity nelemAlloc).capacity) (halloc : 32 ≤ nelemAlloc)
    (hrun : SafeRun capacity nelemAlloc c) (hmany : 1 < c.capacity) {ptrs : List Nat} {d : UndoSlotBufferCache}
    (h : c.run (ptrs.map .fetch) = some d) : SafeRun capacity nelemAlloc d := by
  induction ptrs generalizing c with
  | nil =>
    cases h
    exact hrun
  | cons ptr ptrs ih =>
    obtain ⟨c', hcall, h⟩ := Option.bind_eq_some_iff.mp h
    have hsafe : c.Safe (.fetch ptr) := .inr (.inr (.inl hmany))
    obtain ⟨l, hcells, hv, hcapacity⟩ := hrun.cells hcap halloc
    obtain ⟨d', -, hcall', -, -, hsame⟩ := hcells.fetchTransactionBuffer hv hcapacity hsafe
    cases hcall.symm.trans hcall'
    exact ih (.call (k := .fetch ptr) hrun trivial hsafe hcall) (hsame ▸ hmany) h

/-- Three entries: the first one is fetched again, so the next one makes room for a fourth, which is removed. -/
theorem slot_buffer_cache_kept_fetch :
    ∃ c d, (create 3 36).run [.fetch 8192, .fetch 16384, .fetch 24576, .fetch 8192, .fetch 32768] = some c ∧
      c.elements.map (fun a => (c.mem a).tag) = [32768, 16384, 8192] ∧ c.call (.remove 32768) = some d ∧
      d.Represented ∧ ∀ k, d.Present k → (d.Safe k ↔ ∃ c', d.call k = some c' ∧ c'.Represented) := by
  have hvalues : ((create 3 36).run ([8192, 16384, 24576, 8192, 32768].map .fetch)).map (fun c =>
      (c.elements.map (fun a => (c.mem a).tag), decide (c.hashFind (makeUndoPtrAlign 32768) ≠ none), c.size,
        decide (c.hashFind (makeUndoPtrAlign 32768) = c.victim), (c.call (.remove 32768)).isSome)) =
      some ([32768, 16384, 8192], true, 3, false, true) := by
    decide +kernel
  obtain ⟨c, hc, hvalues⟩ := Option.map_eq_some_iff.mp hvalues
  simp only [Prod.mk.injEq, decide_eq_true_eq, decide_eq_false_iff_not] at hvalues
  obtain ⟨htags, hpresent, hsize, hvictim, hsome⟩ := hvalues
  obtain ⟨d, hd⟩ := Option.isSome_iff_exists.mp hsome
  have hrun : SafeRun 3 36 c := SafeRun.create.fetches (by decide) (by decide) (by decide) hc
  have hsafe : c.Safe (.remove 32768) := .inl ⟨by rw [hsize]; decide, hvictim⟩
  exact ⟨c, d, hc, htags, hd,
    slot_buffer_cache_kept (by decide) (by decide) (.call (k := .remove 32768) hrun hpresent hsafe hd)⟩

/-- The entry at the clock hand is removed while another stays. -/
theorem slot_buffer_cache_hand_lost :
    ∃ c, (create 3 36).run [.fetch 8192, .fetch 16384, .remove 8192] = some c ∧ ¬ c.Represented := by
  refine ⟨_, rfl, fun hrep => ?_⟩
  obtain ⟨v, hmem, hv⟩ := hrep.victim (List.cons_ne_nil _ _)
  cases hv
  exact absurd hmem (by decide)

end UndoSlotBufferCache

end GaussKernel.Undo
