import AggoraCoin.State

namespace AggoraCoin

structure MintPayload where
  toId : WalletId
  amount : MicroAgc
  eurAmount : Nat
  operatorId : OperatorId
  nonce : Nat
  timestamp : Timestamp
  category : String

structure TransferPayload where
  fromId : WalletId
  toId : WalletId
  amount : MicroAgc
  nonce : Nonce
  timestamp : Timestamp
  senderPubkey : String

structure BurnPayload where
  fromId : WalletId
  amount : MicroAgc
  nonce : Nonce
  timestamp : Timestamp
  senderPubkey : String

def MintPayload.toJson (p : MintPayload) : Json :=
  .obj [("to", .str p.toId), ("amount", .num p.amount), ("eur_amount", .num p.eurAmount),
    ("operator_id", .str p.operatorId), ("nonce", .num p.nonce), ("timestamp", .num p.timestamp),
    ("category", .str p.category)]

def TransferPayload.toJson (p : TransferPayload) : Json :=
  .obj [("from", .str p.fromId), ("to", .str p.toId), ("amount", .num p.amount),
    ("nonce", .num p.nonce), ("timestamp", .num p.timestamp), ("sender_pubkey", .str p.senderPubkey)]

def BurnPayload.toJson (p : BurnPayload) : Json :=
  .obj [("from", .str p.fromId), ("amount", .num p.amount), ("nonce", .num p.nonce),
    ("timestamp", .num p.timestamp), ("sender_pubkey", .str p.senderPubkey)]

/-- A tuple `(String, u64)` is a two-element array. -/
def pairJson (entry : WalletId × MicroAgc) : Json := .arr [.str entry.1, .num entry.2]

/-- `CommitPayload`: every field of the commit but its id and the validator signatures. -/
def IterationCommit.toJson {F : Type} [F64 F] (c : IterationCommit F) : Json :=
  .obj [("iteration_id", .num c.iterationId), ("triggered_at_tick", .num c.triggeredAtTick),
    ("snapshot_supply", .num c.snapshotSupply), ("snapshot_n_wallets", .num c.snapshotNWallets),
    ("snapshot_gini", .float (F64.jsonText c.snapshotGini)), ("inflation", .float (F64.jsonText c.inflation)),
    ("burn_rate", .float (F64.jsonText c.burnRate)), ("penalties", .arr (c.penalties.map pairJson)),
    ("rewards", .arr (c.rewards.map pairJson)), ("burned", .num c.burned),
    ("faucet_from_penalty", .num c.faucetFromPenalty), ("faucet_from_mint", .num c.faucetFromMint),
    ("new_wallets", .arr (c.newWallets.map .str)), ("post_supply", .num c.postSupply)]

inductive Payload (F : Type)
  | mint (payload : MintPayload)
  | transfer (payload : TransferPayload)
  | burn (payload : BurnPayload)
  | commit (commit : IterationCommit F)

namespace Payload

variable {F : Type} [F64 F]

def toJson : Payload F → Json
  | mint p => p.toJson
  | transfer p => p.toJson
  | burn p => p.toJson
  | commit c => c.toJson

/-- The bytes that are hashed. -/
def bytes (C : Crypto) (payload : Payload F) : Bytes := C.toVec payload.toJson

end Payload

variable (C : Crypto)

def mintTxId (payload : MintPayload) : Hash := C.hashSerializable payload.toJson

def TransferRequest.payload (request : TransferRequest) (senderPubkey : String) : TransferPayload :=
  { fromId := request.fromId, toId := request.toId, amount := request.amount, nonce := request.nonce,
    timestamp := request.timestamp, senderPubkey }

def BurnRequest.payload (request : BurnRequest) (senderPubkey : String) : BurnPayload :=
  { fromId := request.fromId, amount := request.amount, nonce := request.nonce,
    timestamp := request.timestamp, senderPubkey }

def transferTxId (request : TransferRequest) : Except StateError Hash :=
  match normalizeBytesToHex request.senderPubkey 32 with
  | .error _ => .error .invalidSignature
  | .ok senderPubkey => .ok (C.hashSerializable (request.payload senderPubkey).toJson)

def burnTxId (request : BurnRequest) : Except StateError Hash :=
  match normalizeBytesToHex request.senderPubkey 32 with
  | .error _ => .error .invalidSignature
  | .ok senderPubkey => .ok (C.hashSerializable (request.payload senderPubkey).toJson)

def iterationCommitHash {F : Type} [F64 F] (commit : IterationCommit F) : Hash :=
  C.hashSerializable commit.toJson

theorem pairJson_injective : Function.Injective pairJson := by
  rintro ⟨a, m⟩ ⟨b, n⟩ same
  simp only [pairJson, Json.arr.injEq, List.cons.injEq, Json.str.injEq, Json.num.injEq, Nat.cast_inj,
    and_true] at same
  rw [same.1, same.2]

theorem MintPayload.toJson_injective : Function.Injective MintPayload.toJson := by
  rintro ⟨_, _, _, _, _, _, _⟩ ⟨_, _, _, _, _, _, _⟩ same
  simpa [toJson] using same

theorem TransferPayload.toJson_injective : Function.Injective TransferPayload.toJson := by
  rintro ⟨_, _, _, _, _, _⟩ ⟨_, _, _, _, _, _⟩ same
  simpa [toJson] using same

theorem BurnPayload.toJson_injective : Function.Injective BurnPayload.toJson := by
  rintro ⟨_, _, _, _, _⟩ ⟨_, _, _, _, _⟩ same
  simpa [toJson] using same

end AggoraCoin
