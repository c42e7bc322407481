/-!
# Streams of events and who wrote them
-/

namespace LedgerBench

/-- The kind of process that wrote a stream. -/
inductive Role where
  /-- The client that drives the benchmark. -/
  | client
  /-- A peer node. -/
  | peer
  /-- The storage node with this number. -/
  | storage (node : Nat)
deriving Repr, DecidableEq

namespace Role

/-- Whether the stream is the client's. -/
def isClient : Role → Bool
  | client => true
  | _ => false

/-- The number of a storage node. -/
def node? : Role → Option Nat
  | storage node => some node
  | _ => none

/-- The name of a role in notices. -/
def name : Role → String
  | client => "Client"
  | peer => "Peer"
  | storage node => s!"Storage({node})"

end Role

/-- Where a stream is read from, and who wrote it. -/
structure Source where
  /-- The path of the log. -/
  path : String
  /-- The process that wrote it. -/
  role : Role
deriving Repr, DecidableEq

/-- The sources of a benchmark: the client, then the peers, then the storage nodes, which are
numbered from one in the order given. -/
def Source.collect (client : String) (peers storages : List String) : List Source :=
  ⟨client, .client⟩ :: peers.map (⟨·, .peer⟩) ++
    storages.zipIdx.map fun (path, i) => ⟨path, .storage (i + 1)⟩

end LedgerBench
