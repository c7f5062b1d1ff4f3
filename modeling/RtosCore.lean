import RtosCore.LinkRing
import RtosCore.Rota
import RtosCore.ListCode
import RtosCore.ListModel
import RtosCore.ListSlots
import RtosCore.ListRefines
import RtosCore.ListInsert
import RtosCore.ListRemove
import RtosCore.ListMove
import RtosCore.ListQueries
import RtosCore.ListRuns
import RtosCore.ListInvariant
import RtosCore.ListContract
import RtosCore.RotaTurns
import RtosCore.ListEffects
import RtosCore.NoStarvation
import RtosCore.RotaOrder
import RtosCore.WakeOrder
import RtosCore.KeyWidth
import RtosCore.Independence
import RtosCore.VisitOrder
import RtosCore.WalkBounds
import RtosCore.Shortcuts
import RtosCore.FairQueue
import RtosCore.ArenaCode
import RtosCore.HandleWord
import RtosCore.ArenaSlots
import RtosCore.ArenaRuns
import RtosCore.ArenaLifetime
import RtosCore.KeyedMap
import RtosCore.ArenaObjects
import RtosCore.ArenaStore
import RtosCore.ArenaContract
import RtosCore.ArenaReach
import RtosCore.ArenaDiscard
import RtosCore.ArenaLookups
import RtosCore.Tick
import RtosCore.Scaling
import RtosCore.TimeCode
import RtosCore.Conversions
import RtosCore.Timeouts
import RtosCore.Erasure
import RtosCore.TraceCode
import RtosCore.Projection
import RtosCore.CheckedRun
import RtosCore.Collections
import RtosCore.ListOutcomes
import RtosCore.FuzzTarget
import RtosCore.FuzzSound
import RtosCore.Numerals
import RtosCore.Differential
import RtosCore.DifferentialSound
import RtosCore.Observation
import RtosCore.ListObservation
import RtosCore.Arrangement
import RtosCore.FirstFit
import RtosCore.ArenaFill
import RtosCore.ArenaObservation
import RtosCore.DelayedLists
import RtosCore.RoundTrips
import RtosCore.ArenaStates
import RtosCore.Pieces
import RtosCore.TraceText
import RtosCore.Oracle
import RtosCore.Sizing
import RtosCore.HandleText
import RtosCore.RotaRounds
import RtosCore.Residents
import RtosCore.RotaTies
import RtosCore.AnyOrder
import RtosCore.RotaRename
import RtosCore.Sharing
import RtosCore.FastPath
import RtosCore.ArenaClients
import RtosCore.Tours
import RtosCore.Removals
