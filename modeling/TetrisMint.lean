import TetrisMint.BlobLeak
import TetrisMint.BlockMemory
import TetrisMint.BlockMemorySpec
import TetrisMint.Board
import TetrisMint.BoardMessages
import TetrisMint.BoardTraffic
import TetrisMint.CStrings
import TetrisMint.CallRecord
import TetrisMint.Chooser
import TetrisMint.ChunkBounds
import TetrisMint.ClientConn
import TetrisMint.ClientMessages
import TetrisMint.ClientScreens
import TetrisMint.ClientSpec
import TetrisMint.ComboBox
import TetrisMint.CompletionEvent
import TetrisMint.Connections
import TetrisMint.Controls
import TetrisMint.CullLines
import TetrisMint.CullTermination
import TetrisMint.Doubling
import TetrisMint.Drawing
import TetrisMint.EncoderWrites
import TetrisMint.Engine
import TetrisMint.EngineInvariant
import TetrisMint.EngineSpec
import TetrisMint.FallibleRun
import TetrisMint.FirstMatch
import TetrisMint.FueledLoop
import TetrisMint.GameClocks
import TetrisMint.GameOverFinal
import TetrisMint.GameStart
import TetrisMint.GameView
import TetrisMint.IdleCalls
import TetrisMint.IdleGame
import TetrisMint.IntCounters
import TetrisMint.Invitations
import TetrisMint.KeyBindings
import TetrisMint.LineClearing
import TetrisMint.LineEditor
import TetrisMint.LinkedList
import TetrisMint.Lobby
import TetrisMint.LockDelay
import TetrisMint.Looks
import TetrisMint.MergedChunk
import TetrisMint.Message
import TetrisMint.MessageSizes
import TetrisMint.MoveReversal
import TetrisMint.Moves
import TetrisMint.NameArrays
import TetrisMint.NumberWindows
import TetrisMint.ObjectHeap
import TetrisMint.OfflineSession
import TetrisMint.OptionSelection
import TetrisMint.OwnCalls
import TetrisMint.Painting
import TetrisMint.PartyMembership
import TetrisMint.PieceLedger
import TetrisMint.PieceLog
import TetrisMint.Pieces
import TetrisMint.PlayerGames
import TetrisMint.PlayerKeys
import TetrisMint.PlayerRegistry
import TetrisMint.Rectangles
import TetrisMint.Registration
import TetrisMint.Renderer
import TetrisMint.ReplyFaults
import TetrisMint.RequestMatching
import TetrisMint.RowCompaction
import TetrisMint.ScoreLedger
import TetrisMint.Screen
import TetrisMint.Segmentation
import TetrisMint.Segments
import TetrisMint.Server
import TetrisMint.ServerAnswers
import TetrisMint.ServerFaults
import TetrisMint.ServerInvariant
import TetrisMint.ServerSpec
import TetrisMint.ServerTraffic
import TetrisMint.SessionFaults
import TetrisMint.SessionPlan
import TetrisMint.ShadowBlocks
import TetrisMint.SlotTable
import TetrisMint.SoftDrop
import TetrisMint.StringArray
import TetrisMint.StringArrayBlob
import TetrisMint.StringArrayRoundTrip
import TetrisMint.StringArrayWire
import TetrisMint.TextField
import TetrisMint.TextFieldEditor
import TetrisMint.Unregistered
import TetrisMint.WindowLayout
