import TangentFeed.Core.Network
import TangentFeed.Lib.Runs

/-!
# A sample deployment

Concrete engines over `plainCrypto` on which the results are instantiated: the
physical clock stands still, the store never fails and nothing is encrypted.
`pair` and `trio` are two and three of them on a network.
-/

namespace TangentFeed.Sample

instance neZeroThree : NeZero 3 := ⟨by decide⟩

def env : Env := ⟨fun _ => 1000, fun _ => 1000, fun _ _ => 0, fun _ => false⟩

def opts : EngineOptions := ⟨env, none⟩

def table : JsString := js "todos"

def row : JsString := List.replicate 26 0x30

def record (v : Json) : Record := ⟨[(js "title", v)], List.nodup_singleton _⟩

/-- A transport that is down: every `send` throws. -/
def downLiveTail : Subscriber := Node.liveTailSubscriber fun _ => true

/-- The operation the device of `seed` makes for its first write of `title`. -/
def written (seed : Nat) : List Op :=
  match ((SyncEngine.opened plainCrypto opts seed).makeLocalOps plainCrypto table row
    (record (.bool true)).entries).1 with
  | .ok ops => ops
  | .error _ => []

/-- The same on the wire. -/
def sent (seed : Nat) : List Json := (written seed).map Op.raw

/-- A fresh engine that has the keys of the devices of `seeds`. -/
def reader (seed : Nat) (seeds : List Nat) : SyncEngine :=
  seeds.foldl (fun e s =>
    (e.learnKey plainCrypto (SyncEngine.opened plainCrypto opts s).deviceId
      (plainCrypto.keygen s).publicKey).2) (SyncEngine.opened plainCrypto opts seed)

/-- The engine after a sequence of batches. -/
def deliver (e : SyncEngine) (batches : List (List Json)) : SyncEngine :=
  batches.foldl (fun e batch => (e.applyRemoteOps plainCrypto batch).engine) e

/-! ## Two replicas -/

def pair : Deployment plainCrypto Bool where
  opts _ := opts
  seed i := if i then 2 else 1
  distinct := by
    rintro (_ | _) (_ | _) h
    · rfl
    · exact absurd h (by decide +kernel)
    · exact absurd h (by decide +kernel)
    · rfl

def space : JsString := js "home"

/-- The pair after some actions. -/
def after (acts : List (Action Bool)) : Config Bool :=
  Runs.run (Config.step plainCrypto space) pair.initial acts

def otherRow : JsString := List.replicate 26 0x31

/-- Replica `i` writes `title` of a row. -/
def write (i : Bool) (row : JsString) : Action Bool :=
  .call i (.update table row (record (.bool true)))

/-- One write, sent by the live tail and merged by the other replica. -/
def oneWrite : List (Action Bool) := [.start false, .resume false 0, .start true, .deliver true 0,
  write false row, .deliver true 1, .resume true 2]

/-- One replica asks the other for its write and gets the answer. -/
def answered : List (Action Bool) :=
  [write false row, .start false, .start true, .resume false 0, .deliver true 0] ++
  List.replicate 6 (.resume true 1) ++ .deliver false 3 :: List.replicate 4 (.resume false 1) ++
  [.deliver true 4, .deliver true 5, .resume true 3]

/-! ## Three replicas -/

def trio : Deployment plainCrypto (Fin 3) where
  opts _ := opts
  seed i := i.val + 1
  distinct := by
    have distinct : ∀ i j : Fin 3,
        deviceIdFromPublicKey plainCrypto (plainCrypto.keygen (i.val + 1)).publicKey =
          deviceIdFromPublicKey plainCrypto (plainCrypto.keygen (j.val + 1)).publicKey → i = j := by
      decide +kernel
    exact fun i j => distinct i j

end TangentFeed.Sample
