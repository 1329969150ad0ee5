import DanWs.FlatStates
import DanWs.TopicParsing

namespace DanWs.ClientTopics

open DanWs.FiniteMaps
open DanWs.FlatStates
open DanWs.Strings
open DanWs.TopicParsing
open DanWs.WireTypes

/-- The members of the client that deal with topics. Of a topic handle only the
index is kept. -/
structure TopicClient where
  subscriptions : TopicMap
  topicDirty : Bool
  topicHandles : FiniteMap StdString Int
  topicIndexMap : FiniteMap StdString Int
  indexToTopic : FiniteMap Int StdString

def namePath (index : Nat) : StdString := str "topic." ++ decimal index ++ str ".name"

def paramPath (index : Nat) (paramKey : StdString) : StdString :=
  str "topic." ++ decimal index ++ str ".param." ++ paramKey

/-- The subscriptions in the order of the map, numbered. -/
def numberedTopics (subscriptions : TopicMap) :
    List ((StdString × FiniteMap StdString Payload) × Nat) :=
  ((IterationOrder.sorted StdString).items subscriptions).zipIdx

def entriesOf (index : Nat) (topicName : StdString) (params : FiniteMap StdString Payload) :
    List (StdString × Payload) :=
  (namePath index, .string topicName) ::
    ((IterationOrder.sorted StdString).items params).map
      fun (paramKey, paramValue) => (paramPath index paramKey, paramValue)

def topicEntries (subscriptions : TopicMap) : List (StdString × Payload) :=
  (numberedTopics subscriptions).flatMap
    fun ((topicName, params), index) => entriesOf index topicName params

def registrationFrame (path : StdString) (value : Payload) (keyId : Nat) : Frame :=
  ⟨.clientKeyRegistration, UInt32.ofNat keyId, detectDataType value, .string path⟩

def valueFrame (value : Payload) (keyId : Nat) : Frame :=
  ⟨.clientValue, UInt32.ofNat keyId, detectDataType value, value⟩

def registrationFrames (entries : List (StdString × Payload)) : List Frame :=
  (entries.zipIdx 1).map fun ((path, value), keyId) => registrationFrame path value keyId

def valueFrames (entries : List (StdString × Payload)) : List Frame :=
  (entries.zipIdx 1).map fun ((_, value), keyId) => valueFrame value keyId

def syncFrames (subscriptions : TopicMap) : List Frame :=
  let entries := topicEntries subscriptions
  [signalFrame .clientReset] ++ registrationFrames entries ++ valueFrames entries ++
    [signalFrame .clientSync]

namespace TopicClient

def new : TopicClient := ⟨∅, false, ∅, ∅, ∅⟩

def number (client : TopicClient) (topicName : StdString) (index : Nat) : TopicClient :=
  { client with
    topicHandles := client.topicHandles.insert topicName index
    topicIndexMap := client.topicIndexMap.insert topicName index
    indexToTopic := client.indexToTopic.insert index topicName }

/-- `sendTopicSync`, where `isOpen` tells whether there is an open connection. -/
def sendTopicSync (client : TopicClient) (isOpen : Bool) : TopicClient × List Frame :=
  if isOpen then
    let cleared := { client with topicIndexMap := ∅, indexToTopic := ∅ }
    let numbered := (numberedTopics client.subscriptions).foldl
      (fun client ((topicName, _), index) => client.number topicName index) cleared
    ({ numbered with topicDirty := false }, syncFrames client.subscriptions)
  else ({ client with topicDirty := true }, [])

def subscribe (client : TopicClient) (isOpen : Bool) (topicName : StdString)
    (params : FiniteMap StdString Payload) : TopicClient × List Frame :=
  { client with subscriptions := client.subscriptions.insert topicName params }.sendTopicSync
    isOpen

def unsubscribe (client : TopicClient) (isOpen : Bool) (topicName : StdString) :
    TopicClient × List Frame :=
  if client.subscriptions.lookup topicName = none then (client, [])
  else
    { client with
      subscriptions := client.subscriptions.erase topicName
      topicHandles := client.topicHandles.erase topicName }.sendTopicSync isOpen

end TopicClient

end DanWs.ClientTopics
