import DanWs.TopicSync

namespace DanWs.SessionStanding

open DanWs.FiniteMaps
open DanWs.Principals
open DanWs.Sessions
open DanWs.TopicParsing
open DanWs.TopicSync
open DanWs.WireTypes

/-- Whose session it is, and whether its client is connected. -/
structure Identity where
  id : StdString
  principal : StdString
  connected : Bool
  deriving DecidableEq

def identity (session : Session) : Identity :=
  ⟨session.id, session.principal, session.connected⟩

def standing (session : Session) : Identity × SessionState := (identity session, session.state)

/-- How far the server has come with the client of a session. -/
structure Stage where
  state : SessionState
  txProvider : Option StdString
  serverSyncSent : Bool

def stage (session : Session) : Stage :=
  ⟨session.state, session.txProvider, session.serverSyncSent⟩

def footing (session : Session) : Identity × Stage := (identity session, stage session)

theorem identity_of_standing {session changed : Session}
    (h : standing changed = standing session) : identity changed = identity session :=
  congrArg Prod.fst h

theorem standing_of_footing {session changed : Session}
    (h : footing changed = footing session) : standing changed = standing session :=
  congrArg (fun held : Identity × Stage => (held.1, held.2.state)) h

theorem stage_of_footing {session changed : Session}
    (h : footing changed = footing session) : stage changed = stage session :=
  congrArg Prod.snd h

section Application

theorem footing_set (session : Session) (key : StdString) (value : Payload) :
    footing ((session.set key value).toOption.getD (session, [])).1 = footing session := by
  rw [Session.set]
  cases session.flatState <;> rfl

theorem footing_clearKey (session : Session) (key : StdString) :
    footing (session.clearKey key).1 = footing session := by
  rw [Session.clearKey]
  split <;> rfl

theorem footing_topicSet (session : Session) (name key : StdString) (value : Payload) :
    footing (session.topicSet name key value).1 = footing session := by
  rw [Session.topicSet]
  split <;> rfl

theorem footing_topicClearKey (session : Session) (name key : StdString) :
    footing (session.topicClearKey name key).1 = footing session := by
  rw [Session.topicClearKey]
  split <;> rfl

variable [HashOrder StdString]

theorem footing_clear (session : Session) : footing session.clear.1 = footing session := by
  rw [Session.clear]
  split <;> rfl

theorem footing_topicClear (session : Session) (name : StdString) :
    footing (session.topicClear name).1 = footing session := by
  rw [Session.topicClear]
  split <;> rfl

end Application

section Client

theorem footing_createTopicHandle (session : Session) (name : StdString)
    (params : FiniteMap StdString Payload) (wireIndex : Int) :
    footing (session.createTopicHandle name params wireIndex) = footing session := rfl

theorem footing_subscribeOne (nameToIndex : FiniteMap StdString Int) (outcome : SyncOutcome)
    (topic : StdString × FiniteMap StdString Payload) :
    footing (subscribeOne nameToIndex outcome topic).session = footing outcome.session := by
  rw [subscribeOne]
  split
  · rfl
  · exact footing_createTopicHandle _ _ _ _

variable [HashOrder StdString]

theorem footing_removeTopicHandle (session : Session) (name : StdString) :
    footing (session.removeTopicHandle name).1 = footing session := by
  rw [Session.removeTopicHandle]
  split <;> rfl

theorem footing_unsubscribeOne (newTopics : TopicMap) (outcome : SyncOutcome)
    (oldName : StdString) :
    footing (unsubscribeOne newTopics outcome oldName).session = footing outcome.session := by
  rw [unsubscribeOne]
  split
  · exact footing_removeTopicHandle _ _
  · rfl

theorem footing_applyTopics (session : Session) (parse : TopicParse) :
    footing (applyTopics session parse).session = footing session := by
  refine applyTopics_induction
    (motive := fun outcome => footing outcome.session = footing session) rfl
    (fun outcome oldName houtcome => ?_) fun outcome topic houtcome => ?_
  · exact (footing_unsubscribeOne _ outcome oldName).trans houtcome
  · exact (footing_subscribeOne _ outcome topic).trans houtcome

theorem footing_handleClientTopicFrame (session : Session) (tables : ClientTables)
    (frame : Frame) :
    footing (handleClientTopicFrame session tables frame).2.session = footing session := by
  unfold handleClientTopicFrame processTopicSync
  split
  · cases tables.parse with
    | error fault => rfl
    | ok parse => exact footing_applyTopics session parse
  · rfl

theorem identity_startSync (session : Session) (tx : Option PrincipalTX) :
    identity (session.startSync tx).session = identity session := by
  cases tx <;> rfl

theorem identity_handleFrame (session : Session) (tx : Option PrincipalTX) (frame : Frame) :
    identity (session.handleFrame tx frame).session = identity session := by
  unfold Session.handleFrame
  split
  · split_ifs <;> rfl
  · cases tx <;> rfl
  · rfl
  · rfl

end Client

end DanWs.SessionStanding
