import Mathlib
import TomoChain.Common.Types
import TomoChain.Lib.SortedMap

set_option autoImplicit false

/-! The records of the TomoX state (`tomox/tomox_state/common.go`, `orderitem.go`)
and the trie database under it.

Modelling choices, shared by all TomoX modules:
* The string enumerations of Go (`Side`, `Type`, `Status`) are inductive types. A side
  other than `SELL` and `BUY` is `Side.unknown`, which takes the `default` branch of the
  switches; an order type other than `MO` is a limit order, as `ApplyOrder` treats it.
* Amounts and prices are natural numbers (`*big.Int` values that the code keeps
  non-negative); the volume of an order list is an integer, since `subVolume` may
  take it below zero.
* A trie is the finite map of its entries with typed values: the RLP encoding of
  the values is the identity, except that a `nil` price of an exchange object is
  read back as `0`, as `rlp` decodes an empty string into a fresh `big.Int`.
* A trie database is content addressed: a trie is stored under the root the
  `TrieHasher` gives it, and the first trie stored under a root stays, as the node
  database of go-ethereum keeps the first node of a hash. -/
namespace TomoChain.Tomox

/-- `Ask` (`"SELL"`), `Bid` (`"BUY"`), or any other string. -/
inductive Side
  | ask
  | bid
  | unknown
  deriving DecidableEq, Repr

/-- The two price tries of an order book. -/
inductive Book
  | asks
  | bids
  deriving DecidableEq, Repr

/-- The `switch side { case Ask: …; case Bid: … }` of the state code: the trie of a side. -/
def Side.book? : Side → Option Book
  | .ask => some .asks
  | .bid => some .bids
  | .unknown => none

/-- `Market` (`"MO"`) or any other type, which `ApplyOrder` processes as a limit order. -/
inductive OrderType
  | market
  | limit
  deriving DecidableEq, Repr

/-- The statuses of `tomox/order.go`. -/
inductive OrderStatus
  | new
  | open
  | partialFilled
  | filled
  | cancelled
  | rejected
  deriving DecidableEq, Repr

/-- `OrderItem`, with the fields the matching engine reads. -/
structure OrderItem where
  quantity : Nat
  price : Nat
  exchangeAddress : Address
  userAddress : Address
  baseToken : Address
  quoteToken : Address
  status : OrderStatus
  side : Side
  type : OrderType
  hash : Hash
  nonce : Nat
  orderID : Nat
  deriving DecidableEq, Repr

/-- `EmptyOrder`: a zero quantity; its `nil` price is modelled as `0`. -/
def emptyOrder : OrderItem :=
  ⟨0, 0, 0, 0, 0, 0, .new, .unknown, .limit, 0, 0, 0⟩

/-- The errors of the TomoX state and of the matching engine, with the values their
messages format. -/
inductive TomoxError
  | nonceTooHigh
  | nonceTooLow
  | orderBookNotFound (orderBook : Hash)
  | orderTypeNotFound
  | orderSideNotFound
  | orderListEmpty (orderBook orderId price : Hash)
  | orderItemEmpty (orderBook orderId price : Hash)
  | orderAmountNotEnough (orderId : Hash) (current wanted : Nat)
  | orderHashMismatch (orderBook orderId got expect : Hash)
  | notFoundSide
  | notFoundOrderList (orderBook : Hash) (price : Nat)
  | tokenDecimal (token : Address)
  | exchangeOwnerEmpty (taker maker : Address)
  | valueNotEnough (addr token : Address) (balance wanted : Nat)
  | tokenNotExist (token : Address)
  | overflow (balance value : Nat)
  | relayerFeeNotEnough (relayer : Address)
  | quantityTradeTooSmall
  /-- Not an error of the Go code: a matching loop of the model ran out of fuel. -/
  | outOfFuel
  deriving DecidableEq, Repr

/-- `orderList`: the record of a price level in an asks or bids trie. -/
structure OrderList where
  volume : Int
  root : Hash
  deriving DecidableEq, Repr

/-- `exchangeObject`: the record of an order book, or of a user's nonce, in the main trie. -/
structure ExchangeObject where
  nonce : Nat
  price : Option Nat
  askRoot : Hash
  bidRoot : Hash
  orderRoot : Hash
  deriving DecidableEq, Repr

/-- `exchangeObject{}`. -/
def ExchangeObject.zero : ExchangeObject := ⟨0, none, 0, 0, 0⟩

/-- What `rlp.DecodeBytes` gives back for `rlp.EncodeToBytes` of an exchange object. -/
def ExchangeObject.roundTrip (data : ExchangeObject) : ExchangeObject :=
  { data with price := some (data.price.getD 0) }

/-- `EmptyRoot`, the root of the empty trie. -/
def emptyRoot : Hash := 0x56e81f171bcc55a6ff8345e692c0f86e5b48e01b996cadc001622fb5e363b421

/-- A trie held in memory: its entries by key. -/
abbrev Trie (ν : Type) := Lib.SortedMap Hash ν

/-- The roots of the four kinds of tries: an order list's amounts, a price trie,
an order book's orders, and the main trie. -/
structure TrieHasher where
  amounts : Trie Hash → Hash
  orderLists : Trie OrderList → Hash
  orders : Trie OrderItem → Hash
  exchanges : Trie ExchangeObject → Hash

/-- The trie database behind a `TomoXStateDB`: the committed tries by root. -/
structure Database where
  hasher : TrieHasher
  amounts : List (Hash × Trie Hash)
  orderLists : List (Hash × Trie OrderList)
  orders : List (Hash × Trie OrderItem)
  exchanges : List (Hash × Trie ExchangeObject)

/-- A database with no trie stored. -/
def Database.empty (hasher : TrieHasher) : Database := ⟨hasher, [], [], [], []⟩

/-- A hasher to run the model with: the empty trie has `EmptyRoot`, and any other trie
the root of its size, offset by its kind. -/
def sizeHasher : TrieHasher where
  amounts t := if t.entries = [] then emptyRoot else bigToHash (t.size + 1)
  orderLists t := if t.entries = [] then emptyRoot else bigToHash (t.size + 100)
  orders t := if t.entries = [] then emptyRoot else bigToHash (t.size + 200)
  exchanges t := if t.entries = [] then emptyRoot else bigToHash (t.size + 300)

/-- `trie.New(root, db)`: a stored trie, the empty trie at the two empty roots, and a
missing node otherwise (`none`). -/
def openTrie {ν : Type} (store : List (Hash × Trie ν)) (root : Hash) : Option (Trie ν) :=
  match store.lookup root with
  | some trie => some trie
  | none => if root = 0 ∨ root = emptyRoot then some Lib.SortedMap.empty else none

/-- `getTrie` and its kin: the trie at `root`, or the empty trie and an error flag
when the root is missing. -/
def openOrEmpty {ν : Type} (store : List (Hash × Trie ν)) (root : Hash) : Trie ν × Bool :=
  match openTrie store root with
  | some trie => (trie, false)
  | none => (Lib.SortedMap.empty, true)

/-- Writing a trie's nodes under its root; a root already present keeps its trie. -/
def storeTrie {ν : Type} (store : List (Hash × Trie ν)) (root : Hash) (trie : Trie ν) :
    List (Hash × Trie ν) :=
  match store.lookup root with
  | some _ => store
  | none => store ++ [(root, trie)]

theorem lookup_append_of_lookup {ν : Type} (store : List (Hash × Trie ν)) (extra : List (Hash × Trie ν))
    {root : Hash} {trie : Trie ν} (found : store.lookup root = some trie) :
    (store ++ extra).lookup root = some trie := by
  induction store with
  | nil => cases found
  | cons head rest ih =>
    by_cases here : root = head.1
    · subst here
      simp only [List.lookup, beq_self_eq_true] at found
      simp only [List.cons_append, List.lookup, beq_self_eq_true]
      exact found
    · have different : (root == head.1) = false := beq_false_of_ne here
      simp only [List.cons_append, List.lookup, different] at found ⊢
      exact ih found

/-- Storing a trie never changes what a root already opens to. -/
theorem openTrie_storeTrie_of_lookup {ν : Type} (store : List (Hash × Trie ν)) (root other : Hash)
    (trie found : Trie ν) (present : store.lookup other = some found) :
    openTrie (storeTrie store root trie) other = some found := by
  unfold storeTrie
  split
  · simp [openTrie, present]
  · simp [openTrie, lookup_append_of_lookup store _ present]

/-- A trie stored under a new root opens at that root. -/
theorem openTrie_storeTrie_self {ν : Type} (store : List (Hash × Trie ν)) (root : Hash)
    (trie : Trie ν) (fresh : store.lookup root = none) :
    openTrie (storeTrie store root trie) root = some trie := by
  have appended : (store ++ [(root, trie)]).lookup root = some trie := by
    induction store with
    | nil => simp
    | cons head rest ih =>
      by_cases here : root = head.1
      · simp [here] at fresh
      · have different : (root == head.1) = false := beq_false_of_ne here
        simp only [List.lookup, different] at fresh
        simp only [List.cons_append, List.lookup, different]
        exact ih fresh
  simp [storeTrie, fresh, openTrie, appended]

end TomoChain.Tomox
