import AggoraCoin.OperatorRequests
import AggoraCoin.Spellings
import AggoraCoin.SupplyRoom

namespace AggoraCoin

variable {F : Type}

namespace Charging

/-- A `POST /api/v1/charge` as it comes in. -/
structure Post where
  headers : HeaderMap
  body : Bytes

/-- What the signature of a charge covers, and the signature itself, decoded. -/
structure Signed where
  timestamp : Timestamp
  body : Bytes
  signature : FixedBytes 64

namespace Post

/-- `signature.unwrap_or_default()` -/
def text (post : Post) : String := (operatorHeaders post.headers).signature.getD ""

def signed (post : Post) : Option Signed :=
  match (operatorHeaders post.headers).timestamp, (operatorHeaders post.headers).signature with
  | some timestamp, some text =>
    match fixed64 text with
    | .ok signature => some ⟨timestamp, post.body, signature⟩
    | .error _ => none
  | _, _ => none

end Post

/-- Where a request stands: `timed` holds the reading it took for the guard, `guarded` has passed
it. -/
inductive Phase
  | arrived
  | verified (request : ChargeRequest) (operator : Operator)
  | timed (request : ChargeRequest) (operator : Operator) (reading : Timestamp)
  | guarded (request : ChargeRequest) (operator : Operator)
  | answered (minted : Bool)

/-- It was let in and has yet to pass the guard. -/
def Phase.waiting : Phase → Bool
  | verified _ _ => true
  | timed _ _ _ => true
  | _ => false

/-- It passed the guard and was not refused after it. -/
def Phase.passed : Phase → Bool
  | guarded _ _ => true
  | answered minted => minted
  | _ => false

structure Request where
  post : Post
  phase : Phase

structure Server (F : Type) where
  node : CoinState F
  clock : Timestamp
  requests : List Request

inductive Input
  | arrive (post : Post)
  | wait (ms : Nat)
  | verify (i : Nat)
  | read (i : Nat)
  | guard (i : Nat)
  | mint (i : Nat)

namespace Server

/-- A server before its first charge. -/
def idle (node : CoinState F) (clock : Timestamp) : Server F := ⟨node, clock, []⟩

def place (i : Nat) (request : Request) (server : Server F) : Server F :=
  { server with requests := server.requests.set i request }

variable (C : Crypto) (readCharge : Bytes → Option ChargeRequest)

/-- The body is parsed, then the headers are checked. -/
def verify (i : Nat) (post : Post) (server : Server F) : Server F :=
  match readCharge post.body with
  | none => server.place i ⟨post, .answered false⟩
  | some request =>
    match verifyOperatorRequest C server.node.parameters.security "POST" "/api/v1/charge" post.body
        (operatorHeaders post.headers) false server.clock server.node with
    | .error _ => server.place i ⟨post, .answered false⟩
    | .ok operator => server.place i ⟨post, .verified request operator⟩

/-- The guard reads the clock before it takes the lock of its table. -/
def read (i : Nat) (post : Post) (request : ChargeRequest) (operator : Operator) (server : Server F) : Server F :=
  if request.amount = 0 then server.place i ⟨post, .answered false⟩
  else server.place i ⟨post, .timed request operator server.clock⟩

def guard (i : Nat) (post : Post) (request : ChargeRequest) (operator : Operator) (reading : Timestamp)
    (server : Server F) : Server F :=
  match guardOperatorReplay server.node.parameters.security post.text request.timestamp reading server.node with
  | (.error _, node) => { server.place i ⟨post, .answered false⟩ with node }
  | (.ok _, node) => { server.place i ⟨post, .guarded request operator⟩ with node }

def mint (i : Nat) (post : Post) (request : ChargeRequest) (operator : Operator) (server : Server F) : Server F :=
  match chargeLocked C request operator post.text server.clock server.node with
  | (.ok _, node) => { server.place i ⟨post, .answered true⟩ with node }
  | (_, node) => { server.place i ⟨post, .answered false⟩ with node }

/-- A step; one that a request cannot take where it stands changes nothing. -/
def next (server : Server F) : Input → Server F
  | .arrive post => { server with requests := server.requests ++ [⟨post, .arrived⟩] }
  | .wait ms => { server with clock := server.clock + ms }
  | .verify i =>
    match server.requests[i]? with
    | some ⟨post, .arrived⟩ => server.verify C readCharge i post
    | _ => server
  | .read i =>
    match server.requests[i]? with
    | some ⟨post, .verified request operator⟩ => server.read i post request operator
    | _ => server
  | .guard i =>
    match server.requests[i]? with
    | some ⟨post, .timed request operator reading⟩ => server.guard i post request operator reading
    | _ => server
  | .mint i =>
    match server.requests[i]? with
    | some ⟨post, .guarded request operator⟩ => server.mint C i post request operator
    | _ => server

/-- Of the requests that carry the same timestamp, body and signature bytes, at most one mints. -/
def AtMostOnce (server : Server F) : Prop :=
  ∀ (i j : Nat) (first second : Request) (signed : Signed), server.requests[i]? = some first →
    server.requests[j]? = some second → first.phase = .answered true → second.phase = .answered true →
      first.post.signed = some signed → second.post.signed = some signed → i = j

/-- The guard, at this reading, drops the text it remembers. -/
def Drops (server : Server F) (reading : Timestamp) (text : String) : Prop :=
  ∃ remembered, server.node.seenOperatorSigs text = some remembered ∧
    max server.node.parameters.security.timestampDriftMs 0 < i64Distance reading remembered

/-- No request with these contents can come to the guard any more: none is on the way, and none is
let in at any later reading of the clock. -/
structure Spent (server : Server F) (signed : Signed) : Prop where
  stale : ∀ later, server.clock ≤ later → later < 2 ^ 63 →
    server.node.parameters.security.timestampDriftMs < i64Distance later signed.timestamp
  gone : ∀ other ∈ server.requests, other.phase.waiting = true → other.post.signed ≠ some signed

end Server

/-- The clock is read while it is an `i64`. When a request comes to the guard, the ones that passed
it with the same contents spelled their signature as it does, and the texts that the guard drops are
of requests whose contents are spent. -/
def Orderly (server : Server F) : Input → Prop
  | .verify _ => server.clock < 2 ^ 63
  | .guard i => ∀ post request operator reading, server.requests[i]? = some ⟨post, .timed request operator reading⟩ →
      ∀ earlier ∈ server.requests, earlier.phase.passed = true → ∀ signed, earlier.post.signed = some signed →
        (post.signed = some signed → earlier.post.text = post.text) ∧
          (server.Drops reading earlier.post.text → server.Spent signed)
  | _ => True

variable {C : Crypto} {readCharge : Bytes → Option ChargeRequest}

/-- A request that was let in carries a signature that can be read, over a timestamp near the clock. -/
theorem Post.signed_of_verified {post : Post} {operator : Operator} {node : CoinState F} {clock : Timestamp}
    (checked : node.parameters.security.devAuthBypass = false)
    (verified : verifyOperatorRequest C node.parameters.security "POST" "/api/v1/charge" post.body
      (operatorHeaders post.headers) false clock node = .ok operator) :
    ∃ signed, post.signed = some signed ∧
      i64Distance clock signed.timestamp ≤ node.parameters.security.timestampDriftMs := by
  obtain ⟨timestamp, text, authorized⟩ := (verifyOperatorRequest_eq_ok_iff checked).mp verified
  obtain ⟨_, signature, _, read, _⟩ := C.verifyEd25519_eq_ok_true_iff.mp authorized.signed
  refine ⟨⟨timestamp, post.body, signature⟩, ?_, authorized.fresh⟩
  simp only [Post.signed, authorized.timestamp_eq, authorized.signature_eq, read]

/-- What is behind the guard changes neither its table nor the parameters. -/
theorem chargeLocked_keeps [F64 F] (request : ChargeRequest) (operator : Operator) (operatorSig : String)
    (now : Timestamp) (node : CoinState F) :
    (chargeLocked C request operator operatorSig now node).2.seenOperatorSigs = node.seenOperatorSigs ∧
      (chargeLocked C request operator operatorSig now node).2.parameters = node.parameters := by
  rcases chargeLocked_cases C node request operator operatorSig now with ⟨_, _, ran⟩ | ⟨_, _, _, _, _, posts⟩
  · rw [ran]
    exact ⟨rfl, rfl⟩
  · generalize chargeLocked C request operator operatorSig now node = ran at posts ⊢
    cases posts with
    | accepted => exact ⟨rfl, rfl⟩
    | stranded => exact ⟨rfl, rfl⟩

namespace Server

variable {server : Server F}

theorem Spent.keep {signed : Signed} (spent : server.Spent signed) {after : Server F}
    (later : server.clock ≤ after.clock) (kept : after.node.parameters = server.node.parameters)
    (waiting : ∀ other ∈ after.requests, other.phase.waiting = true → other.post.signed = some signed →
      ∃ before ∈ server.requests, before.phase.waiting = true ∧ before.post.signed = some signed) :
    after.Spent signed := by
  constructor
  · intro reading from_ below
    rw [kept]
    exact spent.stale reading (later.trans from_) below
  · intro other member waits same
    obtain ⟨before, inside, waited, matches_⟩ := waiting other member waits same
    exact spent.gone before inside waited matches_

/-- The books of the guard: a request that passed is remembered under its text, or spent, and no two
that passed carry the same contents. -/
structure Kept (server : Server F) : Prop where
  checked : server.node.parameters.security.devAuthBypass = false
  readable : ∀ request ∈ server.requests, request.phase.waiting = true ∨ request.phase.passed = true →
    request.post.signed.isSome
  remembered : ∀ request ∈ server.requests, request.phase.passed = true → ∀ signed, request.post.signed = some signed →
    (server.node.seenOperatorSigs request.post.text).isSome ∨ server.Spent signed
  once : ∀ (i j : Nat) (first second : Request) (signed : Signed), server.requests[i]? = some first →
    server.requests[j]? = some second → first.phase.passed = true → second.phase.passed = true →
      first.post.signed = some signed → second.post.signed = some signed → i = j

theorem Kept.atMostOnce (kept : server.Kept) : server.AtMostOnce := by
  intro i j first second signed found other minted minted' same same'
  refine kept.once i j first second signed found other ?_ ?_ same same'
  · rw [minted]
    rfl
  · rw [minted']
    rfl

/-- A step that moves one request on and lets none pass. -/
theorem Kept.place (kept : server.Kept) {i : Nat} {before request : Request} {node : CoinState F}
    (found : server.requests[i]? = some before) (same : request.post = before.post)
    (table : node.seenOperatorSigs = server.node.seenOperatorSigs)
    (settings : node.parameters = server.node.parameters)
    (passed : request.phase.passed = true → before.phase.passed = true)
    (waiting : request.phase.waiting = true → before.phase.waiting = true ∨ server.clock < 2 ^ 63 ∧
      ∃ signed, request.post.signed = some signed ∧
        i64Distance server.clock signed.timestamp ≤ server.node.parameters.security.timestampDriftMs) :
    Kept { server.place i request with node } := by
  have stood := List.mem_of_getElem? found
  have spent {signed : Signed} (before_spent : server.Spent signed) :
      Spent { server.place i request with node } signed := by
    constructor
    · intro later from_ below
      rw [settings]
      exact before_spent.stale later from_ below
    · intro other member waits carries
      rcases List.mem_or_eq_of_mem_set member with old | rfl
      · exact before_spent.gone other old waits carries
      · rcases waiting waits with waited | ⟨below, signed', carries', fresh⟩
        · exact before_spent.gone before stood waited (same ▸ carries)
        · rw [carries] at carries'
          cases carries'
          exact absurd fresh (not_le.mpr (before_spent.stale server.clock le_rfl below))
  -- whoever has passed had passed before, in the same place
  have origin {j : Nat} {other : Request} (here : (server.requests.set i request)[j]? = some other)
      (through : other.phase.passed = true) :
      ∃ old, server.requests[j]? = some old ∧ old.phase.passed = true ∧ old.post = other.post := by
    by_cases moved : i = j
    · subst moved
      obtain ⟨inside, _⟩ := List.getElem?_eq_some_iff.mp found
      rw [List.getElem?_set_self inside] at here
      cases here
      exact ⟨before, found, passed through, same.symm⟩
    · rw [List.getElem?_set_ne moved] at here
      exact ⟨other, here, through, rfl⟩
  constructor
  case checked =>
    rw [settings]
    exact kept.checked
  case readable =>
    intro other member active
    rcases List.mem_or_eq_of_mem_set member with old | rfl
    · exact kept.readable other old active
    · rw [same]
      rcases active with waits | through
      · rcases waiting waits with waited | ⟨_, signed, carries, _⟩
        · exact kept.readable before stood (Or.inl waited)
        · rw [← same, carries]
          rfl
      · exact kept.readable before stood (Or.inr (passed through))
  case remembered =>
    intro other member through signed carries
    obtain ⟨j, here⟩ := List.getElem?_of_mem member
    obtain ⟨old, there, passed_old, post_eq⟩ := origin here through
    rw [← post_eq] at carries ⊢
    rw [table]
    exact (kept.remembered old (List.mem_of_getElem? there) passed_old signed carries).imp_right spent
  case once =>
    intro j k first second signed here here' through through' carries carries'
    obtain ⟨old, there, passed_old, post_eq⟩ := origin here through
    obtain ⟨old', there', passed_old', post_eq'⟩ := origin here' through'
    exact kept.once j k old old' signed there there' passed_old passed_old' (post_eq ▸ carries) (post_eq' ▸ carries')

/-- The guard prunes its table: what it drops is spent. -/
theorem Kept.prune (kept : server.Kept) (reading : Timestamp) {seen : String → Option Timestamp}
    (pruned : ∀ text, seen text = (server.node.seenOperatorSigs text).filter fun remembered =>
      i64Distance reading remembered ≤ max server.node.parameters.security.timestampDriftMs 0)
    (drops : ∀ earlier ∈ server.requests, earlier.phase.passed = true → ∀ signed, earlier.post.signed = some signed →
      server.Drops reading earlier.post.text → server.Spent signed) :
    Kept { server with node := { server.node with seenOperatorSigs := seen } } := by
  refine ⟨kept.checked, kept.readable, ?_, kept.once⟩
  intro earlier member through signed carries
  have spends (spent : server.Spent signed) :
      Spent { server with node := { server.node with seenOperatorSigs := seen } } signed := ⟨spent.stale, spent.gone⟩
  rcases kept.remembered earlier member through signed carries with held | spent
  · obtain ⟨remembered, stored⟩ := Option.isSome_iff_exists.mp held
    by_cases near : i64Distance reading remembered ≤ max server.node.parameters.security.timestampDriftMs 0
    · refine Or.inl ?_
      dsimp only
      rw [pruned, stored, Option.filter_some_pos (by simpa using near)]
      rfl
    · exact Or.inr (spends (drops earlier member through signed carries ⟨remembered, stored, not_le.mp near⟩))
  · exact Or.inr (spends spent)

/-- The guard lets a request pass whose text it does not remember. -/
theorem Kept.pass (kept : server.Kept) {i : Nat} {post : Post} {request : ChargeRequest} {operator : Operator}
    {reading : Timestamp} (found : server.requests[i]? = some ⟨post, .timed request operator reading⟩)
    (unseen : server.node.seenOperatorSigs post.text = none)
    (alike : ∀ earlier ∈ server.requests, earlier.phase.passed = true → ∀ signed, earlier.post.signed = some signed →
      post.signed = some signed → earlier.post.text = post.text) :
    Kept { server.place i ⟨post, .guarded request operator⟩ with
      node := { server.node with
        seenOperatorSigs := Function.update server.node.seenOperatorSigs post.text (some request.timestamp) } } := by
  have stood := List.mem_of_getElem? found
  obtain ⟨inside, _⟩ := List.getElem?_eq_some_iff.mp found
  -- nobody with these contents has passed
  have first_of_all {earlier : Request} (member : earlier ∈ server.requests) (through : earlier.phase.passed = true)
      {signed : Signed} (carries : earlier.post.signed = some signed) : post.signed ≠ some signed := by
    intro same
    rcases kept.remembered earlier member through signed carries with held | spent
    · rw [alike earlier member through signed carries same, unseen] at held
      cases held
    · exact spent.gone _ stood rfl same
  have spends {signed : Signed} (spent : server.Spent signed) :
      Spent { server.place i ⟨post, .guarded request operator⟩ with
        node := { server.node with
          seenOperatorSigs := Function.update server.node.seenOperatorSigs post.text (some request.timestamp) } }
        signed := by
    refine ⟨spent.stale, fun other member waits => ?_⟩
    rcases List.mem_or_eq_of_mem_set member with old | rfl
    · exact spent.gone other old waits
    · cases waits
  constructor
  case checked => exact kept.checked
  case readable =>
    intro other member active
    rcases List.mem_or_eq_of_mem_set member with old | rfl
    · exact kept.readable other old active
    · have waited := kept.readable _ stood (Or.inl rfl)
      exact waited
  case remembered =>
    intro other member through signed carries
    by_cases own : other.post.text = post.text
    · left
      dsimp only
      rw [own, Function.update_self]
      rfl
    · dsimp only
      rw [Function.update_of_ne own]
      rcases List.mem_or_eq_of_mem_set member with old | rfl
      · exact (kept.remembered other old through signed carries).imp_right spends
      · exact absurd rfl own
  case once =>
    intro j k first second signed here here' through through' carries carries'
    have place {l : Nat} {other : Request}
        (there : (server.requests.set i ⟨post, .guarded request operator⟩)[l]? = some other) :
        (l = i ∧ other.post = post) ∨ server.requests[l]? = some other := by
      by_cases moved : i = l
      · subst moved
        rw [List.getElem?_set_self inside] at there
        cases there
        exact Or.inl ⟨rfl, rfl⟩
      · rw [List.getElem?_set_ne moved] at there
        exact Or.inr there
    rcases place here with ⟨at_i, own⟩ | old
    · rcases place here' with ⟨at_i', _⟩ | old'
      · rw [at_i, at_i']
      · exact absurd (own ▸ carries) (first_of_all (List.mem_of_getElem? old') through' carries')
    · rcases place here' with ⟨_, own'⟩ | old'
      · exact absurd (own' ▸ carries') (first_of_all (List.mem_of_getElem? old) through carries)
      · exact kept.once j k first second signed old old' through through' carries carries'

theorem Kept.verify (kept : server.Kept) {i : Nat} {post : Post} (found : server.requests[i]? = some ⟨post, .arrived⟩)
    (below : server.clock < 2 ^ 63) : (server.verify C readCharge i post).Kept := by
  unfold Server.verify
  cases readCharge post.body with
  | none => exact kept.place found rfl rfl rfl (by rintro ⟨⟩) (by rintro ⟨⟩)
  | some request =>
    dsimp only
    cases verified : verifyOperatorRequest C server.node.parameters.security "POST" "/api/v1/charge" post.body
        (operatorHeaders post.headers) false server.clock server.node with
    | error e => exact kept.place found rfl rfl rfl (by rintro ⟨⟩) (by rintro ⟨⟩)
    | ok operator =>
      have fresh := Post.signed_of_verified kept.checked verified
      exact kept.place found rfl rfl rfl (by rintro ⟨⟩) fun _ => Or.inr ⟨below, fresh⟩

theorem Kept.guard (kept : server.Kept) {i : Nat} {post : Post} {request : ChargeRequest} {operator : Operator}
    {reading : Timestamp} (found : server.requests[i]? = some ⟨post, .timed request operator reading⟩)
    (orderly : ∀ earlier ∈ server.requests, earlier.phase.passed = true → ∀ signed, earlier.post.signed = some signed →
      (post.signed = some signed → earlier.post.text = post.text) ∧
        (server.Drops reading earlier.post.text → server.Spent signed)) :
    (server.guard i post request operator reading).Kept := by
  have pruned := kept.prune reading (fun _ => rfl) fun earlier member through signed carries =>
    (orderly earlier member through signed carries).2
  unfold Server.guard guardOperatorReplay
  dsimp only
  by_cases known : ((server.node.seenOperatorSigs post.text).filter fun remembered =>
    i64Distance reading remembered ≤ max server.node.parameters.security.timestampDriftMs 0).isSome
  · rw [if_pos known]
    exact pruned.place found rfl rfl rfl (by rintro ⟨⟩) (by rintro ⟨⟩)
  · rw [if_neg known]
    exact pruned.pass found (Option.not_isSome_iff_eq_none.mp known) fun earlier member through signed carries =>
      (orderly earlier member through signed carries).1

theorem Kept.arrive (kept : server.Kept) (post : Post) :
    Kept { server with requests := server.requests ++ [⟨post, .arrived⟩] } := by
  have old {request : Request} (member : request ∈ server.requests ++ [⟨post, .arrived⟩])
      (active : request.phase.waiting = true ∨ request.phase.passed = true) : request ∈ server.requests := by
    rcases List.mem_append.mp member with before | new
    · exact before
    · rw [List.mem_singleton.mp new] at active
      rcases active with ⟨⟨⟩⟩ | ⟨⟨⟩⟩
  have old_at {j : Nat} {request : Request} (here : (server.requests ++ [⟨post, .arrived⟩])[j]? = some request)
      (through : request.phase.passed = true) : server.requests[j]? = some request := by
    rcases Nat.lt_or_ge j server.requests.length with before | new
    · rwa [List.getElem?_append_left before] at here
    · rw [List.getElem?_append_right new] at here
      rw [List.mem_singleton.mp (List.mem_of_getElem? here)] at through
      cases through
  constructor
  case checked => exact kept.checked
  case readable => exact fun request member active => kept.readable request (old member active) active
  case remembered =>
    intro request member through signed carries
    refine (kept.remembered request (old member (Or.inr through)) through signed carries).imp_right fun spent => ?_
    exact ⟨spent.stale, fun other there waits => spent.gone other (old there (Or.inl waits)) waits⟩
  case once =>
    intro i j first second signed here here' through through'
    exact kept.once i j first second signed (old_at here through) (old_at here' through') through through'

theorem Kept.wait (kept : server.Kept) (ms : Nat) : Kept { server with clock := server.clock + ms } := by
  refine ⟨kept.checked, kept.readable, fun request member through signed carries => ?_, kept.once⟩
  refine (kept.remembered request member through signed carries).imp_right fun spent => ?_
  exact ⟨fun later from_ => spent.stale later ((Int.le_add_of_nonneg_right (Int.natCast_nonneg ms)).trans from_),
    spent.gone⟩

end Server

section Course

variable {server : Server F}

namespace Server

theorem Kept.mint [F64 F] (kept : server.Kept) {i : Nat} {post : Post} {request : ChargeRequest} {operator : Operator}
    (found : server.requests[i]? = some ⟨post, .guarded request operator⟩) :
    (server.mint C i post request operator).Kept := by
  obtain ⟨table, settings⟩ := chargeLocked_keeps (C := C) request operator post.text server.clock server.node
  unfold Server.mint
  cases ran : chargeLocked C request operator post.text server.clock server.node with
  | mk outcome node =>
    rw [ran] at table settings
    cases outcome with
    | ok reply => exact kept.place found rfl table settings (fun _ => rfl) (by rintro ⟨⟩)
    | err e => exact kept.place found rfl table settings (by rintro ⟨⟩) (by rintro ⟨⟩)
    | panic => exact kept.place found rfl table settings (by rintro ⟨⟩) (by rintro ⟨⟩)

theorem Kept.next [F64 F] (kept : server.Kept) {input : Input} (orderly : Orderly server input) :
    (server.next C readCharge input).Kept := by
  cases input with
  | arrive post => exact kept.arrive post
  | wait ms => exact kept.wait ms
  | verify i =>
    dsimp only [Server.next]
    split
    · rename_i post found
      exact kept.verify found orderly
    · exact kept
  | read i =>
    dsimp only [Server.next]
    split
    · rename_i post request operator found
      unfold Server.read
      split
      · exact kept.place found rfl rfl rfl (by rintro ⟨⟩) (by rintro ⟨⟩)
      · exact kept.place found rfl rfl rfl (by rintro ⟨⟩) fun _ => Or.inl rfl
    · exact kept
  | guard i =>
    dsimp only [Server.next]
    split
    · rename_i post request operator reading found
      exact kept.guard found (orderly post request operator reading found)
    · exact kept
  | mint i =>
    dsimp only [Server.next]
    split
    · rename_i post request operator found
      exact kept.mint found
    · exact kept

end Server

variable (C readCharge) in
/-- Any number of steps in any order, each of them orderly. -/
abbrev Server.OrderlyCourse (start : Server F) : Server F → Prop := Reach (Server.next C readCharge) Orderly start

theorem Server.OrderlyCourse.step {start server : Server F} (course : Server.OrderlyCourse C readCharge start server)
    (input : Input) (orderly : Orderly server input) :
    Server.OrderlyCourse C readCharge start (server.next C readCharge input) := .next course orderly

/-- In every course whose steps are orderly a signed charge mints at most once. -/
theorem charge_at_most_once [F64 F] (C : Crypto) (readCharge : Bytes → Option ChargeRequest) (node : CoinState F)
    (clock : Timestamp) (checked : node.parameters.security.devAuthBypass = false) {server : Server F}
    (course : Server.OrderlyCourse C readCharge (Server.idle node clock) server) : server.AtMostOnce := by
  have initial : (Server.idle node clock).Kept := by
    refine ⟨checked, ?_, ?_, ?_⟩
    · rintro request ⟨⟩
    · rintro request ⟨⟩
    · rintro i j first second signed ⟨⟩
  have kept : server.Kept := course.invariant Server.Kept initial fun before input holds orderly => holds.next orderly
  exact kept.atMostOnce

end Course

section Twice

variable (C readCharge) in
/-- Any steps, in any order. -/
abbrev Server.Course (start : Server F) : Server F → Prop := Reach (Server.next C readCharge) (fun _ _ => True) start

theorem Server.Course.step {start server : Server F} (course : Server.Course C readCharge start server)
    (input : Input) : Server.Course C readCharge start (server.next C readCharge input) := .next course trivial

/-- Nothing behind the guard refuses a charge to this wallet. -/
structure Ready (node : CoinState F) (toId : WalletId) : Prop where
  unlocked : node.system.iterationLock = false
  formed : Crypto.WellFormedSecret node.operatorSecret
  stored : ∃ wallet, node.getWallet toId = some wallet

theorem Ready.charge [F64 F] {node : CoinState F} {request : ChargeRequest} (ready : Ready node request.toId)
    (operator : Operator) (operatorSig : String) (now : Timestamp) :
    ∃ reply after, chargeLocked C request operator operatorSig now node = (.ok reply, after) ∧
      Ready after request.toId := by
  obtain ⟨wallet, stored⟩ := ready.stored
  have planned : ∃ plan, planCharge C request operator operatorSig node = .ok plan := by
    simp only [planCharge, rejectIf, ready.unlocked, stored, okOr, bind, Except.bind, pure, Except.pure]
    exact ⟨_, rfl⟩
  obtain ⟨plan, planned⟩ := planned
  rcases chargeLocked_cases C node request operator operatorSig now with
    ⟨_, refused, _⟩ | ⟨posted, before, reply, _, valid, posts⟩
  · rw [planned] at refused
    cases refused
  · have kept := posts.getWallet_self
    have key : posted.wallet.id = request.toId := by
      have named : before.id = request.toId := KeyedTree.key_of_get valid.stored
      rw [valid.wallet_eq]
      exact named
    generalize chargeLocked C request operator operatorSig now node = ran at posts kept ⊢
    cases posts with
    | accepted => exact ⟨_, _, rfl, ready.unlocked, ready.formed, _, key ▸ kept⟩
    | stranded malformed => exact absurd ready.formed malformed

theorem guardOperatorReplay_passes {node : CoinState F} {security : SecurityParameters} {text : String}
    {now : Timestamp} (timestamp : Timestamp) (unseen : ∀ remembered, node.seenOperatorSigs text = some remembered →
      max security.timestampDriftMs 0 < i64Distance now remembered) :
    ∃ seen, guardOperatorReplay security text timestamp now node = (.ok (), { node with seenOperatorSigs := seen }) ∧
      seen text = some timestamp ∧
      ∀ other remembered, seen other = some remembered →
        other = text ∨ node.seenOperatorSigs other = some remembered := by
  unfold guardOperatorReplay
  have none : ((node.seenOperatorSigs text).filter fun remembered =>
      i64Distance now remembered ≤ max security.timestampDriftMs 0) = none := by
    refine Option.filter_eq_none_iff.mpr fun remembered stored => ?_
    simpa using unseen remembered stored
  have unknown : ¬ ((node.seenOperatorSigs text).filter fun remembered =>
      i64Distance now remembered ≤ max security.timestampDriftMs 0).isSome = true := by
    rw [none]
    exact Bool.false_ne_true
  refine ⟨_, if_neg unknown, Function.update_self _ _ _, fun other remembered found => ?_⟩
  by_cases same : other = text
  · exact Or.inl same
  · rw [Function.update_of_ne same] at found
    exact Or.inr (Option.filter_eq_some_iff.mp found).1

theorem guardOperatorReplay_refuses {node : CoinState F} {security : SecurityParameters} {text : String}
    {now remembered : Timestamp} (timestamp : Timestamp) (found : node.seenOperatorSigs text = some remembered)
    (near : i64Distance now remembered ≤ max security.timestampDriftMs 0) :
    ∃ e after, guardOperatorReplay security text timestamp now node = (.error e, after) := by
  unfold guardOperatorReplay
  have kept : ((node.seenOperatorSigs text).filter fun remembered =>
      i64Distance now remembered ≤ max security.timestampDriftMs 0).isSome = true := by
    rw [found, Option.filter_some]
    simp [near]
  exact ⟨_, _, if_pos kept⟩

/-- Of two copies of a request one mints and the other is refused, and every step is orderly. -/
theorem mints_once [F64 F] {node : CoinState F} {clock : Timestamp} {post : Post} {request : ChargeRequest}
    {operator : Operator} (ready : Ready node request.toId) (unseen : node.seenOperatorSigs = fun _ => none)
    (below : clock < 2 ^ 63) (parsed : readCharge post.body = some request) (positive : request.amount ≠ 0)
    (verified : verifyOperatorRequest C node.parameters.security "POST" "/api/v1/charge" post.body
      (operatorHeaders post.headers) false clock node = .ok operator)
    (near : i64Distance clock request.timestamp ≤ max node.parameters.security.timestampDriftMs 0) :
    ∃ after, Server.OrderlyCourse C readCharge (Server.idle node clock)
      ⟨after, clock, [⟨post, .answered true⟩, ⟨post, .answered false⟩]⟩ := by
  have fresh : ∀ remembered, node.seenOperatorSigs post.text = some remembered →
      max node.parameters.security.timestampDriftMs 0 < i64Distance clock remembered := by
    intro remembered found
    rw [unseen] at found
    cases found
  obtain ⟨seen, guarded, held, _⟩ := guardOperatorReplay_passes request.timestamp fresh
  have ready' : Ready { node with seenOperatorSigs := seen } request.toId :=
    ⟨ready.unlocked, ready.formed, ready.stored⟩
  obtain ⟨_, booked, minted, _⟩ := ready'.charge (C := C) operator post.text clock
  obtain ⟨table, settings⟩ := chargeLocked_keeps (C := C) request operator post.text clock
    { node with seenOperatorSigs := seen }
  rw [minted] at table settings
  have same_settings : booked.parameters = node.parameters := settings
  have same_table : booked.seenOperatorSigs = seen := table
  have remembers : booked.seenOperatorSigs post.text = some request.timestamp := by rw [same_table, held]
  rw [← same_settings] at near
  obtain ⟨_, after, refused⟩ := guardOperatorReplay_refuses request.timestamp remembers near
  have arrived : Server.OrderlyCourse C readCharge (Server.idle node clock)
      ⟨node, clock, [⟨post, .arrived⟩, ⟨post, .arrived⟩]⟩ :=
    (Server.OrderlyCourse.step .start (.arrive post) trivial).step (.arrive post) trivial
  have let_in : Server.OrderlyCourse C readCharge (Server.idle node clock)
      ⟨node, clock, [⟨post, .timed request operator clock⟩, ⟨post, .timed request operator clock⟩]⟩ := by
    have step := (((arrived.step (.verify 0) below).step (.verify 1) ?_).step (.read 0) trivial).step (.read 1) trivial
    · simpa only [Server.next, Server.verify, Server.read, Server.place, List.getElem?_cons_zero,
        List.getElem?_cons_succ, List.set_cons_zero, List.set_cons_succ, parsed, verified, if_neg positive] using step
    · simpa only [Orderly, Server.next, Server.verify, Server.place, List.getElem?_cons_zero, List.set_cons_zero,
        parsed, verified] using below
  -- nobody has passed before the first of them
  have orderly : Orderly (F := F)
      ⟨node, clock, [⟨post, .timed request operator clock⟩, ⟨post, .timed request operator clock⟩]⟩ (.guard 0) := by
    intro _ _ _ _ _ earlier member through
    rcases List.mem_pair.mp member with rfl | rfl <;> cases through
  have first_done : Server.OrderlyCourse C readCharge (Server.idle node clock)
      ⟨booked, clock, [⟨post, .answered true⟩, ⟨post, .timed request operator clock⟩]⟩ := by
    have step := (let_in.step (.guard 0) orderly).step (.mint 0) trivial
    simpa only [Server.next, Server.guard, Server.mint, Server.place, List.getElem?_cons_zero, List.set_cons_zero,
      guarded, minted] using step
  -- the second spells the signature of the first, which is remembered
  have orderly' : Orderly (F := F)
      ⟨booked, clock, [⟨post, .answered true⟩, ⟨post, .timed request operator clock⟩]⟩ (.guard 1) := by
    rintro _ _ _ _ ⟨⟩ earlier member through signed _
    rcases List.mem_pair.mp member with rfl | rfl
    · refine ⟨fun _ => rfl, ?_⟩
      rintro ⟨remembered, found, far⟩
      obtain rfl : request.timestamp = remembered := Option.some.inj (remembers.symm.trans found)
      exact absurd far near.not_gt
    · cases through
  refine ⟨after, ?_⟩
  have step := first_done.step (.guard 1) orderly'
  simpa only [Server.next, Server.guard, Server.place, List.getElem?_cons_succ, List.getElem?_cons_zero,
    List.set_cons_succ, List.set_cons_zero, refused] using step

/-- Two requests with the same contents both mint, when they spell the signature differently or the
timestamp of their body is too far from the clock to be remembered. -/
theorem mints_twice [F64 F] {node : CoinState F} {clock : Timestamp} {first second : Post} {signed : Signed}
    {request : ChargeRequest} {operator : Operator} (ready : Ready node request.toId)
    (unseen : node.seenOperatorSigs = fun _ => none) (carries : first.signed = some signed)
    (carries' : second.signed = some signed) (parsed : readCharge first.body = some request)
    (parsed' : readCharge second.body = some request) (positive : request.amount ≠ 0)
    (verified : verifyOperatorRequest C node.parameters.security "POST" "/api/v1/charge" first.body
      (operatorHeaders first.headers) false clock node = .ok operator)
    (verified' : verifyOperatorRequest C node.parameters.security "POST" "/api/v1/charge" second.body
      (operatorHeaders second.headers) false clock node = .ok operator)
    (forgets : second.text = first.text →
      max node.parameters.security.timestampDriftMs 0 < i64Distance clock request.timestamp) :
    ∃ server, Server.Course C readCharge (Server.idle node clock) server ∧ ¬ server.AtMostOnce := by
  -- the first request, from the guard on
  have fresh : ∀ remembered, node.seenOperatorSigs first.text = some remembered →
      max node.parameters.security.timestampDriftMs 0 < i64Distance clock remembered := by
    intro remembered found
    rw [unseen] at found
    cases found
  obtain ⟨seen, guarded, held, only⟩ := guardOperatorReplay_passes request.timestamp fresh
  have ready_one : Ready { node with seenOperatorSigs := seen } request.toId :=
    ⟨ready.unlocked, ready.formed, ready.stored⟩
  obtain ⟨_, node_two, minted, ready_two⟩ := ready_one.charge (C := C) operator first.text clock
  obtain ⟨table, settings⟩ := chargeLocked_keeps (C := C) request operator first.text clock
    { node with seenOperatorSigs := seen }
  rw [minted] at table settings
  have same_settings : node_two.parameters = node.parameters := settings
  have same_table : node_two.seenOperatorSigs = seen := table
  -- and the second one
  have forgotten : ∀ remembered, node_two.seenOperatorSigs second.text = some remembered →
      max node_two.parameters.security.timestampDriftMs 0 < i64Distance clock remembered := by
    intro remembered found
    rw [same_table] at found
    rcases only second.text remembered found with alike | old
    · rw [alike, held] at found
      cases found
      rw [same_settings]
      exact forgets alike
    · rw [unseen] at old
      cases old
  obtain ⟨seen', guarded', _, _⟩ := guardOperatorReplay_passes request.timestamp forgotten
  have ready_three : Ready { node_two with seenOperatorSigs := seen' } request.toId :=
    ⟨ready_two.unlocked, ready_two.formed, ready_two.stored⟩
  obtain ⟨_, last, minted', _⟩ := ready_three.charge (C := C) operator second.text clock
  have arrived : Server.Course C readCharge (Server.idle node clock)
      ⟨node, clock, [⟨first, .arrived⟩, ⟨second, .arrived⟩]⟩ :=
    (Server.Course.step .start (.arrive first)).step (.arrive second)
  have let_in : Server.Course C readCharge (Server.idle node clock)
      ⟨node, clock, [⟨first, .verified request operator⟩, ⟨second, .verified request operator⟩]⟩ := by
    have step := (arrived.step (.verify 0)).step (.verify 1)
    simpa only [Server.next, Server.verify, Server.place, List.getElem?_cons_zero, List.getElem?_cons_succ,
      List.set_cons_zero, List.set_cons_succ, parsed, parsed', verified, verified'] using step
  have first_done : Server.Course C readCharge (Server.idle node clock)
      ⟨node_two, clock, [⟨first, .answered true⟩, ⟨second, .verified request operator⟩]⟩ := by
    have step := ((let_in.step (.read 0)).step (.guard 0)).step (.mint 0)
    simpa only [Server.next, Server.read, Server.guard, Server.mint, Server.place, List.getElem?_cons_zero,
      List.set_cons_zero, if_neg positive, guarded, minted] using step
  have both_done : Server.Course C readCharge (Server.idle node clock)
      ⟨last, clock, [⟨first, .answered true⟩, ⟨second, .answered true⟩]⟩ := by
    have step := ((first_done.step (.read 1)).step (.guard 1)).step (.mint 1)
    simpa only [Server.next, Server.read, Server.guard, Server.mint, Server.place, List.getElem?_cons_zero,
      List.getElem?_cons_succ, List.set_cons_zero, List.set_cons_succ, if_neg positive, guarded', minted'] using step
  refine ⟨_, both_done, fun once => ?_⟩
  have same := once 0 1 _ _ signed rfl rfl rfl rfl carries carries'
  cases same

end Twice

end Charging

namespace Concrete

/-- A node with one operator and one wallet on record. -/
def teller (key : FixedBytes 32) : CoinState ℚ :=
  { pair with
    storage := ⟨[.operator (genesisRecord (crypto.blake3Hex key.val) (Hex.encode key.val)),
      .wallet (.fresh "a" "ka" 10000000 1 0 "op")]⟩ }

theorem getOperator_teller (key : FixedBytes 32) : (teller key).getOperator (crypto.blake3Hex key.val) =
    some (genesisRecord (crypto.blake3Hex key.val) (Hex.encode key.val)) := KeyedTree.get_put_self _ _

theorem teller_ready (key : FixedBytes 32) : Charging.Ready (teller key) "a" := by
  have wallets : (teller key).trees.wallets = KeyedTree.empty.put (.fresh "a" "ka" 10000000 1 0 "op") := rfl
  refine ⟨rfl, trivial, .fresh "a" "ka" 10000000 1 0 "op", ?_⟩
  rw [CoinState.getWallet, wallets]
  exact KeyedTree.get_put_self _ _

def chargeBody : Bytes := asBytes "\x7b\"to\":\"a\",\"amount\":1,\"eur_amount\":0,\"timestamp\":0\x7d"

def readBody (body : Bytes) : Option ChargeRequest := if body = chargeBody then some (chargeRequest 1) else none

theorem readBody_chargeBody : readBody chargeBody = some (chargeRequest 1) := if_pos rfl

def chargeSignature (key : FixedBytes 32) (timestamp : Timestamp) : FixedBytes 64 :=
  mark key (canonicalRequestMessage "POST" "/api/v1/charge" timestamp chargeBody)

/-- The charge, under a timestamp and a signature as they are spelled. -/
def chargePost (key : FixedBytes 32) (timestamp signature : String) : Charging.Post where
  headers
    | "x-operator-timestamp" => [headerValue timestamp]
    | "x-operator-signature" => [headerValue signature]
    | "x-operator-public-key" => [headerValue (Hex.encode key.val)]
    | _ => []
  body := chargeBody

section Posts

variable {key : FixedBytes 32} {text signature : String} {timestamp : Timestamp}

theorem operatorHeaders_chargePost (visible : ∀ c ∈ text.toList, 32 ≤ c.toNat ∧ c.toNat < 127)
    (visible' : ∀ c ∈ signature.toList, 32 ≤ c.toNat ∧ c.toNat < 127) (read : parseI64 text = some timestamp) :
    operatorHeaders (chargePost key text signature).headers =
      { timestamp := some timestamp
        signature := some signature
        operatorId := none
        operatorPublicKey := some (Hex.encode key.val) } := by
  have sentTimestamp : headerStr (chargePost key text signature).headers "x-operator-timestamp" = some text :=
    headerStr_headerValue visible (by simp [chargePost])
  have sentSignature : headerStr (chargePost key text signature).headers "x-operator-signature" = some signature :=
    headerStr_headerValue visible' (by simp [chargePost])
  have sentKey := headerStr_headerValue (visible_encode key.val)
    (show ((chargePost key text signature).headers "x-operator-public-key").head? = _ by simp [chargePost])
  have sentId : headerStr (chargePost key text signature).headers "x-operator-id" = none := by
    simp [headerStr, chargePost]
  rw [operatorHeaders, sentTimestamp, sentSignature, sentKey, sentId, Option.bind_some, read]

theorem signed_chargePost (visible : ∀ c ∈ text.toList, 32 ≤ c.toNat ∧ c.toNat < 127)
    (visible' : ∀ c ∈ signature.toList, 32 ≤ c.toNat ∧ c.toNat < 127) (read : parseI64 text = some timestamp)
    (fixed : fixed64 signature = .ok (chargeSignature key timestamp)) :
    (chargePost key text signature).signed = some ⟨timestamp, chargeBody, chargeSignature key timestamp⟩ := by
  rw [Charging.Post.signed, operatorHeaders_chargePost visible visible' read]
  dsimp only
  rw [fixed]
  rfl

/-- The teller lets the charge in while its timestamp is fresh. -/
theorem verify_chargePost (low : key.val.headD 0 < 0x40) (visible : ∀ c ∈ text.toList, 32 ≤ c.toNat ∧ c.toNat < 127)
    (visible' : ∀ c ∈ signature.toList, 32 ≤ c.toNat ∧ c.toNat < 127) (read : parseI64 text = some timestamp)
    (fixed : fixed64 signature = .ok (chargeSignature key timestamp)) {now : Timestamp}
    (fresh : i64Distance now timestamp ≤ (teller key).parameters.security.timestampDriftMs) :
    verifyOperatorRequest crypto (teller key).parameters.security "POST" "/api/v1/charge"
        (chargePost key text signature).body (operatorHeaders (chargePost key text signature).headers) false now
        (teller key) =
      .ok (genesisRecord (crypto.blake3Hex key.val) (Hex.encode key.val)) := by
  have keyRead : fixed32 (Hex.encode key.val) = .ok key := fixedBytes_encode key (by decide)
  refine (verifyOperatorRequest_eq_ok_iff rfl).mpr ⟨timestamp, signature, ?_⟩
  rw [operatorHeaders_chargePost visible visible' read]
  refine ⟨rfl, fresh, rfl, ?_, ?_, rfl, by simp, ?_⟩
  · exact mapErr_eq_ok_iff.mpr (normalizeBytesToHex_eq_ok_iff.mpr ⟨key, keyRead, rfl⟩)
  · exact ⟨_, crypto.walletIdFromPublicKey_eq_ok_iff.mpr ⟨key, keyRead, rfl⟩, getOperator_teller key, by simp⟩
  · refine crypto.verifyEd25519_eq_ok_true_iff.mpr ⟨key, _, keyRead, fixed, ?_, ?_⟩
    · simpa [crypto] using low
    · simpa [crypto, chargeSignature, chargePost] using low

end Posts

/-- The signature in hex and in padded Base64. -/
theorem fixed64_hex (sig : FixedBytes 64) : fixed64 (Hex.encode sig.val) = .ok sig := fixedBytes_encode sig (by decide)

theorem visible_base64 (bytes : Bytes) :
    ∀ c ∈ (String.ofList (Base64.encodeStandard bytes)).toList, 32 ≤ c.toNat ∧ c.toNat < 127 := by
  rw [String.toList_ofList]
  intro c member
  rcases List.mem_append.mp member with body | pad
  · have symbols : ∀ n : Fin 64,
        32 ≤ (Base64.symbol '+' '/' n.val).toNat ∧ (Base64.symbol '+' '/' n.val).toNat < 127 := by decide
    exact Base64.forall_mem_encodeBody (fun c => 32 ≤ c.toNat ∧ c.toNat < 127) symbols bytes c body
  · rw [List.eq_of_mem_replicate pad]
    decide

theorem base64_ne_hex (sig : FixedBytes 64) : String.ofList (Base64.encodeStandard sig.val) ≠ Hex.encode sig.val := by
  intro alike
  have sized := sig.property
  have lengths := congrArg (fun text : String => text.toList.length) alike
  have pairs : (sig.val.map fun byte => (Hex.pair byte).length).sum = 128 := by
    change (sig.val.map fun _ => 2).sum = 128
    rw [List.map_const', List.sum_replicate, sized]
    rfl
  simp only [String.toList_ofList, Hex.toList_encode, List.length_flatMap, pairs, Base64.encodeStandard, Base64.padding,
    List.length_append, List.length_replicate, Base64.length_encodeBody, sized] at lengths
  exact absurd lengths (by decide)

theorem fixed64_base64 (sig : FixedBytes 64) : fixed64 (String.ofList (Base64.encodeStandard sig.val)) = .ok sig := by
  have sized := sig.property
  have framed : (String.ofList (Base64.encodeStandard sig.val)).toList = [] ++ Base64.encodeStandard sig.val ++ [] := by
    rw [String.toList_ofList, List.nil_append, List.append_nil]
  have written : trim (String.ofList (Base64.encodeStandard sig.val)) = Base64.encodeStandard sig.val :=
    trim_framed framed (by simp) (by simp) Spells.standard.solid
  have decoded := decodeBytes_standard (by omega) written
  exact (readsAs_iff.mpr decoded).fixed

end Concrete

namespace Charging

/-- One signature in hex and in padded Base64 mints twice, and so does one request whose body bears
a timestamp far from the clock. -/
theorem charge_replayed :
    (∃ server, Server.Course Concrete.crypto Concrete.readBody
        (Server.idle (Concrete.teller (Concrete.key 1)) 0) server ∧
      ¬ server.AtMostOnce) ∧
    ∃ server, Server.Course Concrete.crypto Concrete.readBody
        (Server.idle (Concrete.teller (Concrete.key 1)) 1000000000) server ∧
      ¬ server.AtMostOnce := by
  have low : (Concrete.key 1).val.headD 0 < 0x40 := by decide
  have ready := Concrete.teller_ready (Concrete.key 1)
  have parsed := Concrete.readBody_chargeBody
  constructor
  · have read : parseI64 "0" = some 0 := by decide
    have visible : ∀ c ∈ "0".toList, 32 ≤ c.toNat ∧ c.toNat < 127 := by simp
    have hex := Concrete.visible_encode (Concrete.chargeSignature (Concrete.key 1) 0).val
    have base64 := Concrete.visible_base64 (Concrete.chargeSignature (Concrete.key 1) 0).val
    have fixed := Concrete.fixed64_hex (Concrete.chargeSignature (Concrete.key 1) 0)
    have fixed' := Concrete.fixed64_base64 (Concrete.chargeSignature (Concrete.key 1) 0)
    refine mints_twice ready rfl (Concrete.signed_chargePost visible hex read fixed)
      (Concrete.signed_chargePost visible base64 read fixed') parsed parsed (by decide)
      (Concrete.verify_chargePost low visible hex read fixed (by decide))
      (Concrete.verify_chargePost low visible base64 read fixed' (by decide)) ?_
    intro alike
    rw [Post.text, Post.text, Concrete.operatorHeaders_chargePost visible base64 read,
      Concrete.operatorHeaders_chargePost visible hex read] at alike
    exact absurd alike (Concrete.base64_ne_hex _)
  · have read : parseI64 "1000000000" = some 1000000000 := by decide
    have visible : ∀ c ∈ "1000000000".toList, 32 ≤ c.toNat ∧ c.toNat < 127 := by simp
    have hex := Concrete.visible_encode (Concrete.chargeSignature (Concrete.key 1) 1000000000).val
    have fixed := Concrete.fixed64_hex (Concrete.chargeSignature (Concrete.key 1) 1000000000)
    have carries := Concrete.signed_chargePost visible hex read fixed
    have fresh : i64Distance 1000000000 1000000000 ≤
        (Concrete.teller (Concrete.key 1)).parameters.security.timestampDriftMs := by decide
    have verified := Concrete.verify_chargePost low visible hex read fixed fresh
    refine mints_twice ready rfl carries carries parsed parsed (by decide) verified verified fun _ => ?_
    decide

/-- A charge that was minted, and its replay, which was not. -/
theorem charge_at_most_once_minted :
    ∃ server : Server ℚ, server.AtMostOnce ∧
      server.requests.map Request.phase = [.answered true, .answered false] := by
  have low : (Concrete.key 1).val.headD 0 < 0x40 := by decide
  have read : parseI64 "0" = some 0 := by decide
  have visible : ∀ c ∈ "0".toList, 32 ≤ c.toNat ∧ c.toNat < 127 := by simp
  have hex := Concrete.visible_encode (Concrete.chargeSignature (Concrete.key 1) 0).val
  have fixed := Concrete.fixed64_hex (Concrete.chargeSignature (Concrete.key 1) 0)
  have fresh : i64Distance 0 0 ≤ (Concrete.teller (Concrete.key 1)).parameters.security.timestampDriftMs := by decide
  have verified := Concrete.verify_chargePost low visible hex read fixed fresh
  obtain ⟨after, course⟩ := mints_once (Concrete.teller_ready (Concrete.key 1)) rfl (by decide)
    Concrete.readBody_chargeBody (by decide) verified (by decide)
  exact ⟨_, charge_at_most_once Concrete.crypto Concrete.readBody _ 0 rfl course, rfl⟩

end Charging

end AggoraCoin
