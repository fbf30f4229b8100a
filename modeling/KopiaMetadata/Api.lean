import KopiaMetadata.MultiGet
import KopiaMetadata.RemoveMany

/-!
# The manager's API

The exported methods of `Manager` as calls on the cache, each with what its caller sees. A call of
`MultiGet` or `ListContents` replies with what some interleaving of its goroutines returns, and a
call of `RemoveMany` leaves the cache as some interleaving does. A run is a sequence of calls, each
on the cache the one before it left.

`PutJSON` and `GetJSON` take any Go value: here `PutJSON` is given what `json.Marshal` returned for
it, and `GetJSON` replies with what it hands to `json.Unmarshal`.
-/

namespace KopiaMetadata

/-- A call of an exported method of `Manager`, with its arguments. -/
inductive Call where
  | put (itemID : String) (content : Bytes)
  | putJSON (id : String) (marshalled : Except GoError Bytes)
  | getMetadata (itemID : String)
  | getJSON (itemID : String)
  | multiGet (itemIDs : List String)
  | listContents (namePrefix : String)
  | list (namePrefix : String)
  | remove (itemID : String)
  | removeMany (itemIDs : List String)
  | refreshCache

/-- What the caller of a method sees. -/
inductive Reply where
  | unit (r : GoResult Unit)
  | bytes (r : GoResult Bytes)
  | items (r : GoResult (String → Option Bytes))
  | names (r : GoResult (List String))

/-- Whether a reply is a panic, which ends the program. -/
def Reply.panicked : Reply → Bool
  | .unit (.error (.panic _)) | .bytes (.error (.panic _)) | .items (.error (.panic _))
  | .names (.error (.panic _)) => true
  | _ => false

/-- The cache after a method that returns only an error, and what its caller sees. -/
def settle (c : Cache) : GoResult Cache → Cache × Reply
  | .ok c' => (c', .unit (.ok ()))
  | .error f => (c, .unit (.error f))

/-- One call on the cache `c`: the cache it leaves and its reply, as the code can produce them. -/
inductive Serves (mm : Manager) (c : Cache) : Call → Cache × Reply → Prop
  | put (itemID : String) (content : Bytes) (rnd : RandomReader) :
      Serves mm c (.put itemID content) (settle c (mm.put c itemID content rnd))
  | putJSON (id : String) (marshalled : Except GoError Bytes) (rnd : RandomReader) :
      Serves mm c (.putJSON id marshalled) (settle c (mm.putJSON c id (fun j => j) marshalled rnd))
  | getMetadata (itemID : String) :
      Serves mm c (.getMetadata itemID) (c, .bytes (mm.getMetadata c itemID))
  | getJSON (itemID : String) :
      Serves mm c (.getJSON itemID) (c, .bytes (mm.getJSON c itemID .ok))
  | multiGet (itemIDs : List String) (r : GoResult (String → Option Bytes))
      (h : MultiGet.Returns (mm.getMetadata c) itemIDs parallelFetches r) :
      Serves mm c (.multiGet itemIDs) (c, .items r)
  | listContents (namePrefix : String) (itemIDs : List String)
      (r : GoResult (String → Option Bytes)) (hlist : Manager.list c namePrefix = .ok itemIDs)
      (h : MultiGet.Returns (mm.getMetadata c) itemIDs parallelFetches r) :
      Serves mm c (.listContents namePrefix) (c, .items r)
  | listContentsError (namePrefix : String) (e : GoError)
      (hlist : Manager.list c namePrefix = .error e) :
      Serves mm c (.listContents namePrefix) (c, .items (.error (.error e)))
  | list (namePrefix : String) :
      Serves mm c (.list namePrefix) (c, .names (liftError (Manager.list c namePrefix)))
  | remove (itemID : String) :
      Serves mm c (.remove itemID) (settle c (liftError (Manager.remove c itemID)))
  | removeMany (itemIDs : List String) (c' : Cache) (r : GoResult Unit)
      (h : RemoveMany.Returns RemoveMany.parallelism itemIDs c c' r) :
      Serves mm c (.removeMany itemIDs) (c', .unit r)
  | refreshCache : Serves mm c .refreshCache (settle c (liftError (Manager.refreshCache c)))

/-- A sequence of calls, each on the cache the one before it left, with their replies. -/
inductive Run (mm : Manager) : Cache → List (Call × Reply) → Cache → Prop
  | nil (c : Cache) : Run mm c [] c
  | cons {c c' c'' : Cache} {call : Call} {reply : Reply} {rest : List (Call × Reply)} :
      Serves mm c call (c', reply) → Run mm c' rest c'' → Run mm c ((call, reply) :: rest) c''

end KopiaMetadata
