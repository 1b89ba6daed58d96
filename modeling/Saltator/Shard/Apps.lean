import Saltator.Cluster.MetaApp
import Saltator.FedOut.FedOutApp
import Saltator.Room.Machine
import Saltator.Shard.Engine
import Saltator.User.Machine

/-!
# The interpreters that shards run
-/

namespace Saltator.Room

/-- The transaction tables start empty. -/
def migrate (s : Store) : Nat → Except StoreError Store
  | 2 => .ok s
  | other => .error (.engine
      ("no migration registered for room schema step v" ++ toString other))

def RoomApp : Shard.ShardApp where
  State := Store
  Command := RoomCommand
  Response := RoomResponse
  Fault := StoreError
  schemaVersion := 2
  apply _ e s cmd := Machine.apply e s cmd
  migrate _ s target := migrate s target

end Saltator.Room

namespace Saltator.User

def UserApp (serde : SerdeJson) : Shard.ShardApp where
  State := Store
  Command := UserCommand
  Response := UserResponse
  Fault := StoreError
  schemaVersion := 6
  apply _ e s cmd := Machine.apply serde e s cmd
  migrate e s target := Machine.migrate e s target

instance (serde : SerdeJson) : DecidableEq (UserApp serde).Response :=
  inferInstanceAs (DecidableEq UserResponse)

end Saltator.User

namespace Saltator.Shard

def Keyspace.app (serde : User.SerdeJson) : Keyspace → ShardApp
  | .metadata => Cluster.MetaApp
  | .room => Room.RoomApp
  | .user => User.UserApp serde
  | .fedOut => FedOut.FedOutApp

end Saltator.Shard
