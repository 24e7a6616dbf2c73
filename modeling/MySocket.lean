import MySocket.Trace
import MySocket.Redemption
import MySocket.CouponList
import MySocket.Vending
import MySocket.Registry
import MySocket.Broadcast
import MySocket.PayPanel
import MySocket.Regex
import MySocket.LimitClause
import MySocket.Rounding
import MySocket.Slices
import MySocket.Paging
import MySocket.HList
import MySocket.Grid
import MySocket.WindowEnds
import MySocket.Delimiter
import MySocket.Connections
import MySocket.InsertId
import MySocket.Chat
import MySocket.LiveBroadcast
import MySocket.PayReopen
import MySocket.KeepAliveServer
import MySocket.LoginPanel
import MySocket.Favorites
import MySocket.Loading
import MySocket.PageArithmetic
import MySocket.Restart
import MySocket.ConnectionLookup
import MySocket.DbConfig
import MySocket.Echo
import MySocket.LineCanvas
import MySocket.SendObject
import MySocket.LimitReplace
import MySocket.LoadedConfig
import MySocket.Resolution
import MySocket.MySqlLexer
import MySocket.SwipePage
import MySocket.SqlText
import MySocket.Arrangement
import MySocket.Wrappers
import MySocket.RecordLists
import MySocket.JsNumber
import MySocket.ArraySort
import MySocket.GroupSort
import MySocket.PaddedLex
import MySocket.JsToNumber
import MySocket.Version
import MySocket.UriComponent
import MySocket.QueryString
import MySocket.SetupSocket
import MySocket.ShortSends
import MySocket.JsText
import MySocket.PicPath
import MySocket.JsDate
import MySocket.OptTime
import MySocket.DateFormat
import MySocket.LogLine
import MySocket.JsLiteral
import MySocket.Obj2Str
import MySocket.ReadableValues
import MySocket.Base64
import MySocket.Feed
import MySocket.WsFrame
import MySocket.ByteMemory
import MySocket.FrameReader
import MySocket.FrameDelivery
import MySocket.FrameWriter
import MySocket.FrameStream
import MySocket.RxFlow
import MySocket.SwapRemove
import MySocket.PollTable
import MySocket.Blockwise
import MySocket.Fips180
import MySocket.Sha1
import MySocket.Handshake
import MySocket.HeaderCreate
