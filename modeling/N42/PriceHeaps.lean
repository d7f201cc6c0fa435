import N42.BinaryHeaps
import N42.PoolSoundness

/-!
The price heaps of the transaction pool.  They keep entries of transactions that have left
the pool, and a counter of these.  Go maps are walked in the order of the lists that stand
for them.
-/

namespace N42.PriceHeaps

open ChainTypes Transactions PoolAdmission BinaryHeaps

/-- `uint256Min`, which gives the larger one. -/
def uint256Min (x y : Uint256) : Uint256 :=
  if y < x then x else y

def effectiveGasTip (tx : Transaction) (baseFee : Uint256) : Uint256 :=
  uint256Min tx.gasTipCap (tx.gasFeeCap - baseFee)

def cmpFees (a b : Uint256) : Ordering :=
  if a < b then .lt else if b < a then .gt else .eq

def cmp (baseFee : Option Uint256) (a b : Transaction) : Ordering :=
  (baseFee.elim .eq fun fee => cmpFees (effectiveGasTip a fee) (effectiveGasTip b fee)).then
    ((cmpFees a.gasPrice b.gasPrice).then (cmpFees a.gasPrice b.gasPrice))

def less (baseFee : Option Uint256) (a b : Transaction) : Bool :=
  match cmp baseFee a b with
  | .lt => true
  | .gt => false
  | .eq => b.nonce < a.nonce

/-- `txPricedList`.  Only the urgent heap has a base fee. -/
structure PricedList where
  stales : Int
  urgent : Array Transaction
  floating : Array Transaction
  baseFee : Option Uint256

def urgentRatio : Nat := 4

def floatingRatio : Nat := 1

def getRemote (lib : Primitives) (all : TxLookup) (hash : Hash) : Option Transaction :=
  all.remotes.find? fun tx => tx.hash lib = hash

def isLive (lib : Primitives) (all : TxLookup) (tx : Transaction) : Bool :=
  (getRemote lib all (tx.hash lib)).isSome

namespace PricedList

def put (tx : Transaction) (isLocal : Bool) (l : PricedList) : PricedList :=
  if isLocal then l else { l with urgent := push (less l.baseFee) l.urgent tx }

def popMany (baseFee : Option Uint256) :
    Nat → Array Transaction → List Transaction × Array Transaction
  | 0, h => ([], h)
  | count + 1, h =>
    match pop (less baseFee) h with
    | none => ([], h)
    | some (tx, rest) =>
      let popped := popMany baseFee count rest
      (tx :: popped.1, popped.2)

def reheap (all : TxLookup) (l : PricedList) : PricedList :=
  let urgent := init (less l.baseFee) all.remotes.toArray
  let popped := popMany l.baseFee (urgent.size * floatingRatio / (urgentRatio + floatingRatio))
    urgent
  { l with
    stales := 0
    urgent := popped.2
    floating := init (less none) popped.1.toArray }

def removed (all : TxLookup) (count : Nat) (l : PricedList) : PricedList :=
  let l := { l with stales := l.stales + count }
  if l.stales ≤ (((l.urgent.size + l.floating.size) / 4 : Nat) : Int) then l else reheap all l

def setBaseFee (all : TxLookup) (baseFee : Uint256) (l : PricedList) : PricedList :=
  reheap all { l with baseFee := some baseFee }

/-- Discard stale entries at the root of a heap, and count them. -/
def purge (live : Transaction → Bool) (baseFee : Option Uint256) :
    Nat → Array Transaction → Array Transaction × Nat
  | 0, h => (h, 0)
  | fuel + 1, h =>
    match pop (less baseFee) h with
    | none => (h, 0)
    | some (tx, rest) =>
      if live tx then (h, 0)
      else
        let purged := purge live baseFee fuel rest
        (purged.1, purged.2 + 1)

/-- The comparison of `underpricedFor`, with the root of a purged heap. -/
def cheaperThan (baseFee : Option Uint256) (h : Array Transaction) (tx : Transaction) : Bool :=
  h[0]?.any fun root => cmp baseFee root tx ≠ .lt

def underpriced (lib : Primitives) (all : TxLookup) (tx : Transaction) (l : PricedList) :
    Bool × PricedList :=
  let urgent := purge (isLive lib all) l.baseFee l.urgent.size l.urgent
  let l := { l with urgent := urgent.1, stales := l.stales - urgent.2 }
  if cheaperThan l.baseFee l.urgent tx || l.urgent.isEmpty then
    let floating := purge (isLive lib all) none l.floating.size l.floating
    let l := { l with floating := floating.1, stales := l.stales - floating.2 }
    ((cheaperThan none l.floating tx || l.floating.isEmpty) &&
      (!l.urgent.isEmpty || !l.floating.isEmpty), l)
  else (false, l)

structure Discarding where
  list : PricedList
  drop : List Transaction
  slots : Int

def Discarding.step (live : Transaction → Bool) (d : Discarding) : Option Discarding :=
  if d.slots ≤ 0 then none
  else if d.list.floating.size * urgentRatio < d.list.urgent.size * floatingRatio then
    (pop (less d.list.baseFee) d.list.urgent).map fun (tx, rest) =>
      if live tx then
        { d with list := { d.list with
          urgent := rest, floating := push (less none) d.list.floating tx } }
      else { d with list := { d.list with urgent := rest, stales := d.list.stales - 1 } }
  else
    (pop (less none) d.list.floating).map fun (tx, rest) =>
      if live tx then
        { list := { d.list with floating := rest }
          drop := d.drop ++ [tx]
          slots := d.slots - TxLookup.numSlots }
      else { d with list := { d.list with floating := rest, stales := d.list.stales - 1 } }

def Discarding.run (live : Transaction → Bool) : Nat → Discarding → Discarding
  | 0, d => d
  | fuel + 1, d => (d.step live).elim d (Discarding.run live fuel)

/-- An entry of the urgent heap is popped twice at most, and one of the floating heap once. -/
def discard (lib : Primitives) (all : TxLookup) (slots : Int) (force : Bool)
    (l : PricedList) : (List Transaction × Bool) × PricedList :=
  let d := Discarding.run (isLive lib all) (2 * l.urgent.size + l.floating.size) ⟨l, [], slots⟩
  if 0 < d.slots ∧ force = false then
    (([], false), d.drop.foldl (fun l tx => l.put tx false) d.list)
  else ((d.drop, true), d.list)

end PricedList

def heapPricing : Pricing PricedList where
  underpriced := PricedList.underpriced
  discard := PricedList.discard
  put := PricedList.put
  removed := PricedList.removed

end N42.PriceHeaps
