import Squash.Foundations.LinkedList
import Squash.Foundations.Transition
import Squash.Foundations.Decimal
import Squash.Foundations.RunningSum
import Squash.Foundations.MultiMap
import Squash.Foundations.Locking
import Squash.Foundations.Pcm
import Squash.Foundations.Circular
import Squash.Foundations.Memory
import Squash.Foundations.Buffer
import Squash.Foundations.CString
import Squash.Foundations.Lines
import Squash.Foundations.Directory
import Squash.Foundations.Countdown
import Squash.Foundations.Interpolation
import Squash.Foundations.Filling
import Squash.Foundations.GrowingArray
import Squash.Foundations.WhileLoop
import Squash.Foundations.Picture
import Squash.Foundations.DigitalEllipse
import Squash.Global
import Squash.Player.CommandQueue
import Squash.Player.Model
import Squash.Player.Moves
import Squash.Player.Invariant
import Squash.Player.Ownership
import Squash.Player.Blocking
import Squash.Player.Provenance
import Squash.Player.Verdict
import Squash.Player.Accounting
import Squash.Player.Silence
import Squash.Player.Toggle
import Squash.Playlist.SongQueue
import Squash.Playlist.Refinement
import Squash.Playlist.PastQueue
import Squash.Playlist.Selection
import Squash.Playlist.HandOff
import Squash.Playlist.FullyLoaded
import Squash.Playlist.Pipeline
import Squash.Playlist.WakeUps
import Squash.Text.ParseFile
import Squash.Text.Grammar
import Squash.Database.Song
import Squash.Database.Meta
import Squash.Database.Tags
import Squash.Database.Record
import Squash.Database.SongType
import Squash.Database.LoadMeta
import Squash.Database.Lookup
import Squash.Database.Masterlist
import Squash.Database.Walk
import Squash.Database.Mapping
import Squash.Database.Search
import Squash.Stat.Rating
import Squash.Stat.Effects
import Squash.Stat.Loading
import Squash.Stat.Aggregates
import Squash.Stat.Interrupted
import Squash.Stat.Edit
import Squash.Stat.Picking
import Squash.Stat.NormalTest
import Squash.Stat.RatingBounds
import Squash.Locks.Hierarchy
import Squash.Locks.Threads
import Squash.Locks.Order
import Squash.Locks.Balance
import Squash.State.Save
import Squash.State.Load
import Squash.State.RoundTrip
import Squash.State.Interleaving
import Squash.State.Arrays
import Squash.Audio.Flac
import Squash.Audio.FlacSeek
import Squash.Audio.Mp3
import Squash.Audio.Mp3Seek
import Squash.Audio.Mp3Meta
import Squash.Audio.Sound
import Squash.Spectrum.Ring
import Squash.Spectrum.Latest
import Squash.Spectrum.Render
import Squash.Input.Fifo
import Squash.Input.Remote
import Squash.Input.Screens
import Squash.Input.Session
import Squash.Config.SetConfig
import Squash.Display.Layout
import Squash.Display.Tiling
import Squash.Display.LineBuffer
import Squash.Display.MenuEmpeg
import Squash.Display.MetaString
import Squash.Display.MetaStringEmpeg
import Squash.Display.StarsEmpeg
import Squash.Display.StringEmpeg
import Squash.Display.DrawList
import Squash.Vfd.Screen
import Squash.Vfd.Rectangles
import Squash.Vfd.Bitmaps
import Squash.Vfd.Text
import Squash.Vfd.Lines
import Squash.Vfd.Clipping
import Squash.Vfd.Ellipses
import Squash.Vfd.Calls
import Squash.Vfd.Encoding
import Squash.Extra.CollectInfo
import Squash.Conversions
