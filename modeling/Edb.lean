import Edb.Call
import Edb.Slice
import Edb.LittleEndian
import Edb.Decimal
import Edb.Binary64
import Edb.Binary64Laws
import Edb.StorageIO
import Edb.PosixIO
import Edb.PosixRuns
import Edb.BuiltinTypes
import Edb.IntegerTexts
import Edb.RowCodec
import Edb.RowCodecLaws
import Edb.RowCodecSafety
import Edb.PageStore
import Edb.PageArray
import Edb.EvictionPolicy
import Edb.PolicyLaws
import Edb.Victims
import Edb.ArcLaws
import Edb.BufferPool
import Edb.PoolLaws
import Edb.PoolSpecs
import Edb.PoolCalls
import Edb.Run
import Edb.Cursor
import Edb.Pull
import Edb.PoolRuns
import Edb.PoolPins
import Edb.PoolVictims
import Edb.PoolFaults
import Edb.HeapPage
import Edb.HeapPageLaws
import Edb.HeapPageRuns
import Edb.HeapPageSafety
import Edb.HeapEngine
import Edb.HeapLaws
import Edb.HeapSpecs
import Edb.HeapScans
import Edb.HeapRuns
import Edb.HeapPins
import Edb.HeapDurability
import Edb.OddPages
import Edb.ScanRuns
import Edb.ScanEnds
import Edb.InsertRuns
import Edb.Table
import Edb.Catalog
import Edb.EngineKeeps
import Edb.CatalogRows
import Edb.CatalogModel
import Edb.CatalogLaws
import Edb.CatalogTables
import Edb.CatalogLookups
import Edb.CatalogWrites
import Edb.CatalogOpens
import Edb.CatalogCalls
import Edb.CatalogSessions
import Edb.CatalogRuns
import Edb.CatalogRunLaws
import Edb.CatalogNames
import Edb.Ast
import Edb.Lexer
import Edb.LexerLaws
import Edb.ListForms
import Edb.LiteralTexts
import Edb.LetterCase
import Edb.StatementTexts
import Edb.Parser
import Edb.Binder
import Edb.BinderLaws
import Edb.Plan
import Edb.Exec
import Edb.QueryEngine
import Edb.ExecLaws
import Edb.StatementRuns
import Edb.InsertBinding
import Edb.StoredRows
import Edb.SqlRuns
import Edb.InsertPrefix
import Edb.PrimaryKeys
import Edb.Typing
import Edb.Kleene
import Edb.ThreeValued
import Edb.ColumnLists
import Edb.SqlRoundTrip
import Edb.Comparisons
import Edb.Database
import Edb.DatabaseLaws
import Edb.MirroredComparisons
