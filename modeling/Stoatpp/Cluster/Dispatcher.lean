import Stoatpp.Model.Events

/-!
# `event_dispatcher`

The dispatch functions differ in the id they show to `should_ignore_user` and are otherwise
the same: the handlers of the event run one after the other until one of them throws. The
client registers its own handlers first.
-/

namespace Stoatpp.Cluster

/-- The user the dispatch function of an event asks `should_ignore_user` about, if any. -/
def checkedUser : Event → Option String
  | .message e => some e.author.id
  | .messageReact e => some e.userId
  | .messageUnreact e => some e.userId
  | .serverMemberJoin e => some e.userId
  | .serverMemberLeave _ userId => some userId
  | .serverMemberUpdate e => some e.userId
  | .userUpdate e => some e.id
  | .voiceStateUpdate e => some e.userId
  | .channelStartTyping _ userId => some userId
  | .channelStopTyping _ userId => some userId
  | _ => none

def ignored (shouldIgnoreUser : String → Bool) (e : Event) : Bool :=
  ((checkedUser e).map shouldIgnoreUser).getD false

/-- One dispatch over a state: the handler of the client and then the others, of which is only
known whether they return. `false` stands for an exception that leaves the dispatch. -/
def dispatch {σ : Type} (shouldIgnoreUser : String → Bool) (handler : Event → σ → σ × Bool)
    (others : Bool) (e : Event) (s : σ) : σ × Bool :=
  if ignored shouldIgnoreUser e then (s, true)
  else ((handler e s).1, (handler e s).2 && others)

end Stoatpp.Cluster
