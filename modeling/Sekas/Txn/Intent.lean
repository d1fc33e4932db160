import Sekas.Engine

/-! Transaction intents and the requests of the intent evaluator. The wire codec of
`TxnIntent` is generated by prost and is not part of the source, so it enters as a
codec carrying its round-trip law; integers travel as fixed-width big-endian bytes. -/
namespace Sekas.Txn
open Sekas.Engine

/-- `TxnIntent`: a pending write, stored at `TXN_INTENT_VERSION`. -/
structure TxnIntent where
  startVersion : UInt64
  isDelete : Bool
  value : Option Bytes
  deriving DecidableEq, Repr

/-- `TxnIntent::tombstone`. -/
def TxnIntent.tombstone (startVersion : UInt64) : TxnIntent := ⟨startVersion, true, none⟩

/-- `TxnIntent::with_put`. -/
def TxnIntent.withPut (startVersion : UInt64) (value : Option Bytes) : TxnIntent :=
  ⟨startVersion, false, value⟩

/-- The prost encoding of `TxnIntent`: `decode` fails with the crate's error. -/
structure IntentCodec where
  encode : TxnIntent → Bytes
  decode : Bytes → Except Error TxnIntent
  decode_encode : ∀ i, decode (encode i) = .ok i

attribute [simp] IntentCodec.decode_encode

theorem IntentCodec.encode_injective (codec : IntentCodec) : Function.Injective codec.encode :=
  fun a b h => Except.ok.inj ((codec.decode_encode a).symm.trans
    ((congrArg codec.decode h).trans (codec.decode_encode b)))

def beBytes : Nat → Nat → Bytes
  | 0, _ => []
  | n + 1, x => beBytes n (x / 256) ++ [UInt8.ofNat (x % 256)]

def beValue (bytes : Bytes) : Nat := bytes.foldl (fun acc b => acc * 256 + b.toNat) 0

@[simp] theorem beBytes_length (n x : Nat) : (beBytes n x).length = n := by
  induction n generalizing x <;> simp [beBytes, *]

theorem beValue_beBytes (n x : Nat) : beValue (beBytes n x) = x % 256 ^ n := by
  induction n generalizing x with
  | zero => simp [beBytes, beValue, Nat.mod_one]
  | succ n ih =>
    have ih' := ih (x / 256)
    simp only [beValue] at ih' ⊢
    have hb : (UInt8.ofNat (x % 256)).toNat = x % 256 := by simp [UInt8.toNat, UInt8.ofNat]
    rw [beBytes, List.foldl_append, ih', List.foldl_cons, List.foldl_nil, hb, pow_succ',
      Nat.mod_mul]
    ring

/-- `i64::to_be_bytes`; an `i64` is its two's-complement bit pattern. -/
def i64ToBeBytes (x : BitVec 64) : Bytes := beBytes 8 x.toNat

def decodeI64 (bytes : Bytes) : Option (BitVec 64) :=
  if bytes.length = 8 then some (BitVec.ofNat 64 (beValue bytes)) else none

@[simp] theorem decodeI64_i64ToBeBytes (x : BitVec 64) : decodeI64 (i64ToBeBytes x) = some x := by
  simp [decodeI64, i64ToBeBytes, beValue_beBytes, Nat.mod_eq_of_lt x.isLt]

/-- `Option::ok_or_else`. -/
def okOr (o : Option α) (err : Error) : Except Error α :=
  match o with
  | some a => .ok a
  | none => .error err

@[simp] theorem okOr_eq_ok {o : Option α} {err : Error} {a : α} :
    okOr o err = .ok a ↔ o = some a := by
  cases o <;> simp [okOr]

inductive PutType where
  | none
  | nop
  | addI64
  deriving DecidableEq, Repr

/-- `DeleteRequest`; conditions are those `cas::eval_conditions` reads. -/
structure DeleteRequest (Cond : Type) where
  key : Bytes
  conditions : List Cond
  takePrevValue : Bool
  deriving DecidableEq

structure PutRequest (Cond : Type) where
  putType : PutType
  key : Bytes
  value : Bytes
  conditions : List Cond
  takePrevValue : Bool
  deriving DecidableEq

structure ShardWriteRequest (Cond : Type) where
  shardId : UInt64
  deletes : List (DeleteRequest Cond)
  puts : List (PutRequest Cond)
  deriving DecidableEq

structure WriteIntentRequest (Cond : Type) where
  startVersion : UInt64
  write : Option (ShardWriteRequest Cond)

structure WriteResponse where
  prevValue : Option Value
  deriving DecidableEq, Repr

structure ShardWriteResponse where
  deletes : List WriteResponse
  puts : List WriteResponse
  deriving DecidableEq, Repr

structure WriteIntentResponse where
  write : Option ShardWriteResponse
  deriving DecidableEq, Repr

structure CommitIntentRequest where
  shardId : UInt64
  startVersion : UInt64
  commitVersion : UInt64
  keys : List Bytes
  deriving DecidableEq, Repr

structure ClearIntentRequest where
  shardId : UInt64
  startVersion : UInt64
  keys : List Bytes
  deriving DecidableEq, Repr

def fixedIntentCodec : IntentCodec where
  encode i := beBytes 8 i.startVersion.toNat ++ [if i.isDelete then 1 else 0] ++
    match i.value with
    | none => [0]
    | some v => 1 :: v
  decode bytes :=
    let startVersion := UInt64.ofNat (beValue (bytes.take 8))
    match bytes.drop 8 with
    | [d, 0] => .ok ⟨startVersion, d = 1, none⟩
    | d :: 1 :: v => .ok ⟨startVersion, d = 1, some v⟩
    | _ => .error (.other "invalid intent")
  decode_encode i := by
    obtain ⟨s, d, v⟩ := i
    have hs : UInt64.ofNat (s.toNat % 256 ^ 8) = s :=
      UInt64.toNat.inj (by simp [UInt64.toNat, UInt64.ofNat, Nat.mod_eq_of_lt s.toBitVec.isLt])
    simp only [List.append_assoc, List.singleton_append]
    rw [List.take_left' (beBytes_length 8 _), List.drop_left' (beBytes_length 8 _),
      beValue_beBytes, hs]
    cases d <;> cases v <;> rfl

end Sekas.Txn
